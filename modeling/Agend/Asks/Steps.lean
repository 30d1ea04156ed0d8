import Agend.Asks.Sound

/-! What the operations of the store do to the asks and to the messages of their answers. -/
namespace Agend.Asks

open Agend.Library Agend.Client Agend.Runtime

variable {encode : AskEntry → String} {w w' w'' : World} {t u : Turn} {p : Pending} {q : Ask}
  {rest : List Pending} {id : String} {new : NewMessage} {row : AskRow} {e : AskEntry} {m : Posted}
  {mv : Move} {moves : List Move} {next : DeliveryState}

/-! The queue of answers. -/

theorem Sound.queue (hw : Sound encode w) (h : w.pendingAnswers encode = p :: rest) :
    ∃ t l l', w.turns = l ++ t :: l' ∧ (∀ u ∈ l, u.isPending = false) ∧ t.isPending = true ∧
      w.outgoing encode t = some p ∧
      rest = (l'.filter (·.isPending)).filterMap (w.outgoing encode) := by
  cases hl : w.turns.filter (·.isPending) with
  | nil =>
    rw [World.pendingAnswers, hl] at h
    cases h
  | cons t later =>
    obtain ⟨l, l', hturns, hearlier, ht, rfl⟩ := List.filter_eq_cons_iff.mp hl
    obtain ⟨p', hp'⟩ := hw.outgoing (t := t) (by rw [hturns]; simp)
    rw [World.pendingAnswers, hl, List.filterMap_cons_some hp'] at h
    obtain ⟨rfl, rfl⟩ := List.cons.inj h
    exact ⟨t, l, l', hturns, fun u hu => by simpa using hearlier u hu, ht, hp', rfl⟩

theorem Sound.split (hw : Sound encode w) {l l' : List Turn} (h : w.turns = l ++ t :: l') :
    (∀ u ∈ l, u.seq < t.seq) ∧ ∀ u ∈ l', t.seq < u.seq := by
  have hord := hw.ordered
  rw [h, List.pairwise_append, List.pairwise_cons] at hord
  exact ⟨fun u hu => hord.2.2 u hu t List.mem_cons_self, hord.2.1.1⟩

theorem Sound.first (hw : Sound encode w) (h : w.pendingAnswers encode = p :: rest) :
    ∃ t, First encode w t p := by
  obtain ⟨t, l, l', hturns, hearlier, ht, hp, -⟩ := hw.queue h
  obtain ⟨-, hafter⟩ := hw.split hturns
  refine ⟨t, by rw [hturns]; simp, ht, hp, fun u hu hans hlt => ?_⟩
  rw [hturns, List.mem_append, List.mem_cons] at hu
  rcases hu with hu | rfl | hu
  · have := hearlier u hu
    simpa [Turn.isPending, hans] using this
  · omega
  · have := hafter u hu
    omega

@[simp] theorem asks_markAnswerSent {seq : Nat} : (w.markAnswerSent seq).asks = w.asks := rfl
@[simp] theorem messages_markAnswerSent {seq : Nat} :
    (w.markAnswerSent seq).messages = w.messages := rfl
@[simp] theorem nextSeq_markAnswerSent {seq : Nat} :
    (w.markAnswerSent seq).nextSeq = w.nextSeq := rfl

/-- A turn after the answer of number `seq` is marked. -/
def Turn.marked (seq : Nat) (t : Turn) : Turn := if t.seq = seq then { t with delivered := true } else t

@[simp] theorem Turn.seq_marked {seq : Nat} : (t.marked seq).seq = t.seq := by
  unfold Turn.marked
  split <;> rfl

@[simp] theorem Turn.askId_marked {seq : Nat} : (t.marked seq).askId = t.askId := by
  unfold Turn.marked
  split <;> rfl

@[simp] theorem Turn.entry_marked {seq : Nat} : (t.marked seq).entry = t.entry := by
  unfold Turn.marked
  split <;> rfl

theorem turns_markAnswerSent {seq : Nat} :
    (w.markAnswerSent seq).turns = w.turns.map (Turn.marked seq) := rfl

@[simp] theorem position_markAnswerSent {seq : Nat} :
    (w.markAnswerSent seq).position t = w.position t := by
  simp [World.position, turns_markAnswerSent, List.countP_map, Function.comp_def]

@[simp] theorem outgoing_markAnswerSent {seq : Nat} :
    (w.markAnswerSent seq).outgoing encode t = w.outgoing encode t := by
  simp [World.outgoing]

theorem outgoing_congr (hseq : u.seq = t.seq) (hask : u.askId = t.askId)
    (hentry : u.entry = t.entry) : w.outgoing encode u = w.outgoing encode t := by
  simp [World.outgoing, World.position, hseq, hask, hentry]

@[simp] theorem outgoing_marked {seq : Nat} :
    w.outgoing encode (t.marked seq) = w.outgoing encode t :=
  outgoing_congr Turn.seq_marked Turn.askId_marked Turn.entry_marked

theorem Turn.marked_of_ne {seq : Nat} (h : t.seq ≠ seq) : t.marked seq = t := if_neg h

/-- Marking the first answer leaves the others. -/
theorem Sound.pendingAnswers_mark (hw : Sound encode w)
    (h : w.pendingAnswers encode = p :: rest) :
    (w.markAnswerSent p.seq).pendingAnswers encode = rest := by
  obtain ⟨t, l, l', hturns, hearlier, ht, hp, rfl⟩ := hw.queue h
  obtain ⟨hbefore, hafter⟩ := hw.split hturns
  have hseq := seq_outgoing hp
  have hl : l.map (Turn.marked p.seq) = l :=
    (List.map_congr_left fun u hu => Turn.marked_of_ne (by have := hbefore u hu; omega)).trans (List.map_id _)
  have hl' : l'.map (Turn.marked p.seq) = l' :=
    (List.map_congr_left fun u hu => Turn.marked_of_ne (by have := hafter u hu; omega)).trans (List.map_id _)
  have ht' : (t.marked p.seq).isPending = false := by
    simp [Turn.marked, Turn.isPending, hseq]
  have hnone : l.filter (·.isPending) = [] := List.filter_eq_nil_iff.mpr fun u hu => by
    simp [hearlier u hu]
  rw [World.pendingAnswers, turns_markAnswerSent, hturns, List.map_append, List.map_cons, hl, hl',
    List.filter_append, hnone, List.nil_append, List.filter_cons_of_neg (by simp [ht'])]
  exact List.filterMap_congr fun u _ => outgoing_markAnswerSent

/-! What the rest of the daemon does. -/

/-- The ids of other messages: an agent's message has a UUID, and the engine sends dispatches and
reminders. -/
def isOtherId (id : String) : Bool :=
  isUuidV4 id || "dispatch:".toList.isPrefixOf id.toList || "remind:".toList.isPrefixOf id.toList

theorem isAnswerId_of_isOtherId (h : isOtherId id = true) : isAnswerId id = false := by
  rw [Bool.eq_false_iff]
  intro hans
  obtain ⟨rest, hrest⟩ := List.isPrefixOf_iff_prefix.mp hans
  have hchars : id.toList = 'a' :: 's' :: 'k' :: ':' :: rest := hrest.symm
  simp only [isOtherId, isUuidV4, hchars, Bool.or_eq_true, Bool.and_eq_true,
    List.all_eq_true] at h
  rcases h with (⟨-, hall⟩ | h) | h
  · -- The second character of the id is no digit of a UUID.
    have := hall ('s', 1) (by simp [List.zipIdx_cons])
    revert this
    decide
  · simp [List.isPrefixOf] at h
  · simp [List.isPrefixOf] at h

/-- A move that is none of an answer, and that keeps the row of an answer on its way. -/
def Move.Foreign (encode : AskEntry → String) (w : World) : Move → Prop
  | .post m => isOtherId m.id = true
  | .advance _ _ => True
  | .prune id => ∀ p ∈ w.pendingAnswers encode, p.id ≠ id

/-- The asks stay, and so do the message rows of the answers on their way. -/
structure Aside (encode : AskEntry → String) (w w' : World) : Prop where
  asks : w'.asks = w.asks
  turns : w'.turns = w.turns
  nextSeq : w'.nextSeq = w.nextSeq
  kept : ∀ p ∈ w.pendingAnswers encode, ∀ m, w.messages.get p.id = some m →
    ∃ m', w'.messages.get p.id = some m' ∧ m'.new = m.new
  fresh : ∀ m ∈ w'.messages.rows, isAnswerId m.new.id = true → ∃ m' ∈ w.messages.rows, m'.new = m.new

theorem outgoing_of_eq (hasks : w'.asks = w.asks) (hturns : w'.turns = w.turns) :
    w'.outgoing encode t = w.outgoing encode t := by
  simp [World.outgoing, World.position, hasks, hturns]

theorem pendingAnswers_of_eq (hasks : w'.asks = w.asks) (hturns : w'.turns = w.turns) :
    w'.pendingAnswers encode = w.pendingAnswers encode := by
  rw [World.pendingAnswers, hturns]
  exact List.filterMap_congr fun t _ => outgoing_of_eq hasks hturns

theorem Aside.pendingAnswers (h : Aside encode w w') :
    w'.pendingAnswers encode = w.pendingAnswers encode :=
  pendingAnswers_of_eq h.asks h.turns

theorem Aside.refl : Aside encode w w :=
  ⟨rfl, rfl, rfl, fun _ _ m hm => ⟨m, hm, rfl⟩, fun m hm _ => ⟨m, hm, rfl⟩⟩

theorem Aside.trans (h : Aside encode w w') (h' : Aside encode w' w'') : Aside encode w w'' where
  asks := h'.asks.trans h.asks
  turns := h'.turns.trans h.turns
  nextSeq := h'.nextSeq.trans h.nextSeq
  kept p hp m hm := by
    obtain ⟨m', hm', hnew⟩ := h.kept p hp m hm
    obtain ⟨m'', hm'', hnew'⟩ := h'.kept p (h.pendingAnswers ▸ hp) m' hm'
    exact ⟨m'', hm'', hnew'.trans hnew⟩
  fresh m hm hans := by
    obtain ⟨m', hm', hnew⟩ := h'.fresh m hm hans
    obtain ⟨m'', hm'', hnew'⟩ := h.fresh m' hm' (hnew ▸ hans)
    exact ⟨m'', hm'', hnew'.trans hnew⟩

theorem aside_advance : Aside encode w (w.advance id next) := by
  unfold World.advance
  split
  · rename_i m hm
    split
    · obtain ⟨hmem, hid⟩ := Table.get_eq_some.mp hm
      refine ⟨rfl, rfl, rfl, fun p _ m' hm' => ?_, fun m' hm' _ => ?_⟩
      · change ∃ m'', (w.messages.put { m with state := next }).get p.id = some m'' ∧ _
        rw [Table.get_put]
        split_ifs with h
        · have : m.id = p.id := h.symm
          rw [← this, hid, hm] at hm'
          cases hm'
          exact ⟨_, rfl, rfl⟩
        · exact ⟨m', hm', rfl⟩
      · rcases Table.mem_put.mp hm' with rfl | ⟨hold, -⟩
        · exact ⟨m, hmem, rfl⟩
        · exact ⟨m', hold, rfl⟩
    · exact .refl
  · exact .refl

theorem aside_move (h : mv.Foreign encode w) : Aside encode w (w.move mv) := by
  cases mv with
  | post m =>
    simp only [World.move]
    split
    · exact .refl
    · rename_i hnone
      refine ⟨rfl, rfl, rfl, fun p _ m' hm' => ⟨m', ?_, rfl⟩, fun m' hm' hans => ?_⟩
      · change (w.messages.put m).get p.id = some m'
        rw [Table.get_put_of_ne fun heq => ?_]
        · exact hm'
        · rw [heq, hnone] at hm'
          cases hm'
      · rcases Table.mem_put.mp hm' with rfl | ⟨hold, -⟩
        · have h : isAnswerId m'.new.id = false := isAnswerId_of_isOtherId h
          rw [h] at hans
          cases hans
        · exact ⟨m', hold, rfl⟩
  | advance id next => exact aside_advance
  | prune id =>
    refine ⟨rfl, rfl, rfl, fun p hp m' hm' => ⟨m', ?_, rfl⟩, fun m' hm' _ => ?_⟩
    · change (w.messages.erase id).get p.id = some m'
      rw [Table.get_erase, if_neg (h p hp)]
      exact hm'
    · exact ⟨m', (Table.mem_erase.mp hm').1, rfl⟩

theorem aside_outside (h : ∀ mv ∈ moves, mv.Foreign encode w) :
    Aside encode w (w.outside moves) := by
  induction moves generalizing w with
  | nil => exact .refl
  | cons mv rest ih =>
    have hmv := aside_move (h mv List.mem_cons_self)
    refine hmv.trans (ih fun mv' hmem => ?_)
    have hf := h mv' (List.mem_cons_of_mem _ hmem)
    cases mv' with
    | post m => exact hf
    | advance id next => trivial
    | prune id => exact fun p hp => hf p (hmv.pendingAnswers ▸ hp)

/-- The asks of `w`, with messages that are no answers or are answers of turns. -/
theorem Sound.of_messages (hw : Sound encode w) (hasks : w'.asks = w.asks)
    (hturns : w'.turns = w.turns) (hnext : w'.nextSeq = w.nextSeq)
    (h : ∀ m ∈ w'.messages.rows, isAnswerId m.new.id = true → ∃ t ∈ w.turns,
      t.entry.isAnswer = true ∧ ∃ p, w.outgoing encode t = some p ∧ m.new = p.message) :
    Sound encode w' where
  keyed := hasks ▸ hw.keyed
  dialogue := hasks ▸ hw.dialogue
  turns id := by
    rw [World.turnsOf, World.entriesOf, hasks, hturns]
    exact hw.turns id
  ordered := hturns ▸ hw.ordered
  below := by
    rw [hturns, hnext]
    exact hw.below
  messages m hm hans := by
    obtain ⟨t, ht, hanswer, p, hp, hnew⟩ := h m hm hans
    exact ⟨t, hturns ▸ ht, hanswer, p, (outgoing_of_eq hasks hturns).trans hp, hnew⟩

theorem Sound.aside (hw : Sound encode w) (h : Aside encode w w') : Sound encode w' :=
  hw.of_messages h.asks h.turns h.nextSeq fun m hm hans => by
    obtain ⟨m', hm', hnew⟩ := h.fresh m hm hans
    obtain ⟨t, ht, hanswer, p, hp, hnew'⟩ := hw.messages m' hm' (hnew ▸ hans)
    exact ⟨t, ht, hanswer, p, hp, hnew.symm.trans hnew'⟩

/-! The message of an answer. -/

def Stored (w : World) (p : Pending) : Prop :=
  ∃ m, w.messages.get p.id = some m ∧ m.new = p.message

theorem Aside.stored (h : Aside encode w w') (hp : p ∈ w.pendingAnswers encode)
    (hs : Stored w p) : Stored w' p := by
  obtain ⟨m, hm, hnew⟩ := hs
  obtain ⟨m', hm', hnew'⟩ := h.kept p hp m hm
  exact ⟨m', hm', hnew'.trans hnew⟩

theorem claim_cases : (w.claim new).2 = w ∨
    (w.messages.get new.id = none ∧
      (w.claim new).2 = { w with messages := w.messages.put ⟨new, .queued⟩ }) := by
  unfold World.claim
  split
  · exact .inl rfl
  · rename_i hnone
    exact .inr ⟨hnone, rfl⟩

theorem Sound.claim (hw : Sound encode w) (ht : First encode w t p) :
    Sound encode (w.claim p.message).2 := by
  rcases claim_cases with h | ⟨-, h⟩
  · rw [h]
    exact hw
  · rw [h]
    refine hw.of_messages rfl rfl rfl fun m hm hans => ?_
    rcases Table.mem_put.mp hm with rfl | ⟨hold, -⟩
    · have hanswer := ht.pending
      rw [Turn.isPending, Bool.and_eq_true] at hanswer
      exact ⟨t, ht.mem, hanswer.2, p, ht.outgoing, rfl⟩
    · exact hw.messages m hold hans

/-! Growth. -/

/-- Who asked and about which task stays, and the thread keeps its entries. -/
structure Ask.Grown (q q' : Ask) : Prop where
  id : q'.id = q.id
  instanceId : q'.instanceId = q.instanceId
  taskId : q'.taskId = q.taskId
  created : q'.created = q.created
  entries : q.thread.entries <+: q'.thread.entries

/-- A turn only becomes delivered. -/
structure Turn.Later (t t' : Turn) : Prop where
  seq : t'.seq = t.seq
  askId : t'.askId = t.askId
  entry : t'.entry = t.entry
  delivered : t.delivered = true → t'.delivered = true

/-- Threads and turns grow, and what a turn sends stays the same. -/
structure Grows (encode : AskEntry → String) (w w' : World) : Prop where
  asks : ∀ q ∈ w.asks.rows, ∃ q' ∈ w'.asks.rows, q.Grown q'
  turns : ∀ t ∈ w.turns, ∃ t' ∈ w'.turns, t.Later t' ∧
    w'.outgoing encode t' = w.outgoing encode t

theorem Ask.Grown.refl : q.Grown q := ⟨rfl, rfl, rfl, rfl, List.prefix_rfl⟩

theorem Turn.Later.refl : t.Later t := ⟨rfl, rfl, rfl, id⟩

theorem Grows.of_eq (hasks : w'.asks = w.asks) (hturns : w'.turns = w.turns) :
    Grows encode w w' :=
  ⟨fun q hq => ⟨q, hasks ▸ hq, .refl⟩,
    fun t ht => ⟨t, hturns ▸ ht, .refl, outgoing_of_eq hasks hturns⟩⟩

theorem Grows.trans (h : Grows encode w w') (h' : Grows encode w' w'') : Grows encode w w'' where
  asks q hq := by
    obtain ⟨q', hq', hg⟩ := h.asks q hq
    obtain ⟨q'', hq'', hg'⟩ := h'.asks q' hq'
    exact ⟨q'', hq'', hg'.id.trans hg.id, hg'.instanceId.trans hg.instanceId,
      hg'.taskId.trans hg.taskId, hg'.created.trans hg.created, hg.entries.trans hg'.entries⟩
  turns t ht := by
    obtain ⟨t', ht', hl, hout⟩ := h.turns t ht
    obtain ⟨t'', ht'', hl', hout'⟩ := h'.turns t' ht'
    exact ⟨t'', ht'', ⟨hl'.seq.trans hl.seq, hl'.askId.trans hl.askId, hl'.entry.trans hl.entry,
      fun hd => hl'.delivered (hl.delivered hd)⟩, hout'.trans hout⟩

theorem grows_claim : Grows encode w (w.claim new).2 := by
  rcases claim_cases (w := w) with h | ⟨-, h⟩
  · rw [h]
    exact .of_eq rfl rfl
  · rw [h]
    exact .of_eq rfl rfl

theorem grows_markAnswerSent {seq : Nat} : Grows encode w (w.markAnswerSent seq) where
  asks q hq := ⟨q, hq, .refl⟩
  turns t ht := by
    refine ⟨t.marked seq, List.mem_map_of_mem ht, ⟨?_, ?_, ?_, fun hd => ?_⟩, ?_⟩
    · exact Turn.seq_marked
    · exact Turn.askId_marked
    · exact Turn.entry_marked
    · unfold Turn.marked
      split
      · rfl
      · exact hd
    · rw [outgoing_marked, outgoing_markAnswerSent]

theorem Sound.markAnswerSent (hw : Sound encode w) {seq : Nat} :
    Sound encode (w.markAnswerSent seq) where
  keyed := hw.keyed
  dialogue := hw.dialogue
  turns id := by
    change ((w.turns.map (Turn.marked seq)).filter (·.askId = id)).map (·.entry) = w.entriesOf id
    rw [List.filter_map, List.map_map]
    simpa [Function.comp_def, World.turnsOf] using hw.turns id
  ordered := by
    rw [turns_markAnswerSent, List.pairwise_map]
    simpa using hw.ordered
  below t ht := by
    obtain ⟨u, hu, rfl⟩ := List.mem_map.mp ht
    change (u.marked seq).seq < _
    rw [Turn.seq_marked]
    exact hw.below u hu
  messages m hm hans := by
    obtain ⟨t, ht, hanswer, p, hp, hnew⟩ := hw.messages m hm hans
    refine ⟨t.marked seq, List.mem_map_of_mem ht, ?_, p, ?_, hnew⟩
    · rw [Turn.entry_marked]
      exact hanswer
    · rw [outgoing_marked, outgoing_markAnswerSent]
      exact hp

/-! Saving a thread with one more entry. -/

/-- A new thread of one entry, or a stored one with one entry more. -/
structure Extends (w : World) (row : AskRow) (e : AskEntry) : Prop where
  entries : row.thread.entries = w.entriesOf row.thread.askId ++ [e]
  dialogue : Dialogue row.thread.entries
  owner : ∀ q, w.asks.get row.thread.askId = some q →
    q.instanceId = row.instanceId ∧ q.taskId = row.thread.taskId

/-- What is saved of such a thread. -/
structure Saved (w : World) (row : AskRow) (e : AskEntry) (q : Ask) : Prop where
  id : q.id = row.thread.askId
  thread : q.thread = row.thread
  instanceId : q.instanceId = row.instanceId
  taskId : q.taskId = row.thread.taskId
  created : ∀ q', w.asks.get row.thread.askId = some q' → q.created = q'.created
  world : w.saveAsk row = { w with
    asks := w.asks.put q,
    turns := w.turns ++ [⟨w.nextSeq, row.thread.askId, e, false⟩],
    nextSeq := w.nextSeq + 1 }

theorem Sound.saved (hw : Sound encode w) (h : Extends w row e) : ∃ q, Saved w row e q := by
  have hcount : (w.turns.filter (·.askId = row.thread.askId)).length =
      (w.entriesOf row.thread.askId).length := by
    rw [← hw.turns, World.turnsOf, List.length_map]
  have hfresh : row.thread.entries.drop
      (w.turns.filter (·.askId = row.thread.askId)).length = [e] := by
    rw [hcount, h.entries, List.drop_left]
  cases hq : w.asks.get row.thread.askId with
  | none =>
    refine ⟨⟨row.thread.askId, row.instanceId, row.thread.taskId, row.thread, row.created⟩,
      rfl, rfl, rfl, rfl, (fun q' h' => by cases hq.symm.trans h'), ?_⟩
    simp only [World.saveAsk, hq, hfresh]
    rfl
  | some q =>
    obtain ⟨hinstance, htask⟩ := h.owner q hq
    refine ⟨{ q with thread := row.thread }, (Table.get_eq_some.mp hq).2, rfl, hinstance, htask,
      (fun q' h' => by cases hq.symm.trans h'; rfl), ?_⟩
    simp only [World.saveAsk, hq, hfresh]
    rfl

theorem Saved.outgoing (hs : Saved w row e q) (hw : Sound encode w) (h : Extends w row e)
    (ht : t ∈ w.turns) : (w.saveAsk row).outgoing encode t = w.outgoing encode t := by
  obtain ⟨q', hq'⟩ := hw.owned ht
  have hlt := hw.below t ht
  have hposition : (w.saveAsk row).position t = w.position t := by
    have hnew : ¬ w.nextSeq ≤ t.seq := by omega
    simp [World.position, hs.world, List.countP_append, hnew]
  rw [World.outgoing, World.outgoing, hposition, hs.world, Table.get_put, hq']
  split_ifs with hid
  · rw [show t.askId = row.thread.askId from hid.trans hs.id] at hq'
    obtain ⟨hinstance, htask⟩ := h.owner q' hq'
    simp [hs.instanceId, hs.taskId, hinstance, htask]
  · rfl

theorem Sound.grows_saveAsk (hw : Sound encode w) (h : Extends w row e) :
    Grows encode w (w.saveAsk row) := by
  obtain ⟨q, hs⟩ := hw.saved h
  refine ⟨fun q' hq' => ?_, fun t ht => ⟨t, ?_, .refl, hs.outgoing hw h ht⟩⟩
  · rw [hs.world]
    by_cases hid : q'.id = q.id
    · have hget : w.asks.get row.thread.askId = some q' :=
        Table.get_eq_some.mpr ⟨hq', hid.trans hs.id⟩
      obtain ⟨hinstance, htask⟩ := h.owner q' hget
      refine ⟨q, Table.mem_put.mpr (.inl rfl), hid.symm, hs.instanceId.trans hinstance.symm,
        hs.taskId.trans htask.symm, hs.created q' hget, ?_⟩
      rw [hs.thread, h.entries, entriesOf_of_get hget]
      exact List.prefix_append _ _
    · exact ⟨q', Table.mem_put.mpr (.inr ⟨hq', hid⟩), .refl⟩
  · rw [hs.world]
    exact List.mem_append_left _ ht

theorem Sound.saveAsk (hw : Sound encode w) (h : Extends w row e) :
    Sound encode (w.saveAsk row) := by
  obtain ⟨q, hs⟩ := hw.saved h
  refine ⟨fun b hb => ?_, fun b hb => ?_, fun id => ?_, ?_, fun t ht => ?_, fun m hm hans => ?_⟩
  · rw [hs.world] at hb
    rcases Table.mem_put.mp hb with rfl | ⟨hold, -⟩
    · exact ⟨by rw [hs.thread, hs.id], by rw [hs.thread, hs.taskId]⟩
    · exact hw.keyed b hold
  · rw [hs.world] at hb
    rcases Table.mem_put.mp hb with rfl | ⟨hold, -⟩
    · rw [hs.thread]
      exact h.dialogue
    · exact hw.dialogue b hold
  · have hold := hw.turns id
    rw [World.turnsOf, hs.world, World.entriesOf, Table.get_put, List.filter_append,
      List.map_append]
    split_ifs with hid
    · rw [hid, hs.id] at hold ⊢
      rw [World.turnsOf] at hold
      simp [hold, hs.thread, h.entries]
    · rw [hs.id] at hid
      rw [World.turnsOf, World.entriesOf] at hold
      simp [hold, Ne.symm hid]
  · rw [hs.world]
    refine List.pairwise_append.mpr ⟨hw.ordered, List.pairwise_singleton _ _, ?_⟩
    intro t ht u hu
    rw [List.mem_singleton.mp hu]
    exact hw.below t ht
  · rw [hs.world] at ht ⊢
    rcases List.mem_append.mp ht with ht | ht
    · exact Nat.lt_succ_of_lt (hw.below t ht)
    · rw [List.mem_singleton.mp ht]
      exact Nat.lt_succ_self _
  · have hm' : m ∈ w.messages.rows := by
      rw [hs.world] at hm
      exact hm
    obtain ⟨t, ht, hanswer, p, hp, hnew⟩ := hw.messages m hm' hans
    refine ⟨t, ?_, hanswer, p, (hs.outgoing hw h ht).trans hp, hnew⟩
    rw [hs.world]
    exact List.mem_append_left _ ht

end Agend.Asks
