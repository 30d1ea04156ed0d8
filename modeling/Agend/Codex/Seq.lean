import Agend.Runtime.Programs

/-! Messages keep the order in which they were stored, whatever the calls do to them. -/
namespace Agend.Codex

open Library
open Agend.Runtime

variable {t t' t1 : Table Message.id} {s s' s1 : Store} {m m' : Message} {id k : String}
  {now : Nat}

/-- The place of a message among all messages. -/
def seq (t : Table Message.id) (id : String) : Nat :=
  (t.rows.map Message.id).idxOf id

/-- Messages are only added at the end, keep their level and receiver, and are not queued again. -/
structure Grows (t t' : Table Message.id) : Prop where
  seq : ∀ k, t.get k ≠ none → seq t' k = seq t k
  fresh : ∀ k k', t.get k = none → t.get k' ≠ none → Codex.seq t' k' < Codex.seq t' k
  kept : ∀ k m, t.get k = some m → ∃ m', t'.get k = some m' ∧ m'.level = m.level ∧
    m'.toInstance = m.toInstance ∧ (m'.state = .queued → m.state = .queued)

theorem mem_ids : k ∈ t.rows.map Message.id ↔ t.get k ≠ none := by
  rw [Ne, Table.get_eq_none, List.mem_map]
  push Not
  rfl

theorem seq_lt_length (h : t.get k ≠ none) : seq t k < (t.rows.map Message.id).length :=
  List.idxOf_lt_length_iff.mpr (mem_ids.mpr h)

theorem Grows.refl : Grows t t := by
  refine ⟨fun k _ => rfl, fun k k' hk hk' => ?_, fun k m hm => ⟨m, hm, rfl, rfl, id⟩⟩
  have hend : Codex.seq t k = (t.rows.map Message.id).length :=
    List.idxOf_eq_length fun hmem => mem_ids.mp hmem hk
  rw [hend]
  exact seq_lt_length hk'

theorem Grows.get_ne_none (h : Grows t t') (hk : t.get k ≠ none) : t'.get k ≠ none := by
  obtain ⟨m, hm⟩ := Option.ne_none_iff_exists'.mp hk
  obtain ⟨m', hm', -⟩ := h.kept k m hm
  rw [hm']
  exact nofun

theorem Grows.trans (h : Grows t t1) (h' : Grows t1 t') : Grows t t' := by
  refine ⟨fun k hk => ?_, fun k k' hk hk' => ?_, fun k m hm => ?_⟩
  · rw [h'.seq k (h.get_ne_none hk), h.seq k hk]
  · by_cases h1 : t1.get k = none
    · exact h'.fresh k k' h1 (h.get_ne_none hk')
    · rw [h'.seq k h1, h'.seq k' (h.get_ne_none hk')]
      exact h.fresh k k' hk hk'
  · obtain ⟨m1, hm1, hl, ht, hq⟩ := h.kept k m hm
    obtain ⟨m', hm', hl', ht', hq'⟩ := h'.kept k m1 hm1
    exact ⟨m', hm', hl'.trans hl, ht'.trans ht, fun hs => hq (hq' hs)⟩

/-- A message is stored for the first time. -/
theorem grows_insert (h : t.get m.id = none) : Grows t (t.put m) := by
  have hids : (t.put m).rows.map Message.id = t.rows.map Message.id ++ [m.id] := by
    rw [Table.put, map_upsert, if_neg fun hmem => mem_ids.mp hmem h]
  have hseq : ∀ k, t.get k ≠ none → seq (t.put m) k = seq t k := fun k hk => by
    rw [seq, hids, List.idxOf_append_of_mem (mem_ids.mpr hk), seq]
  refine ⟨hseq, fun k k' hk hk' => ?_, fun k m1 hm1 => ⟨m1, ?_, rfl, rfl, id⟩⟩
  · have hend : seq (t.put m) k = (t.rows.map Message.id).length + [m.id].idxOf k := by
      rw [seq, hids, List.idxOf_append_of_notMem fun hmem => mem_ids.mp hmem hk]
    rw [hseq k' hk', hend]
    exact Nat.lt_add_right _ (seq_lt_length hk')
  · rwa [Table.get_put_of_ne]
    rintro rfl
    cases h.symm.trans hm1

/-- A message is rewritten. -/
theorem grows_put (h : t.get m.id = some m) (hid : m'.id = m.id) (hl : m'.level = m.level)
    (ht : m'.toInstance = m.toInstance) (hq : m'.state = .queued → m.state = .queued) :
    Grows t (t.put m') := by
  have hids : (t.put m').rows.map Message.id = t.rows.map Message.id := by
    rw [Table.put, map_upsert, if_pos]
    rw [mem_ids, hid, h]
    exact nofun
  have hseq : ∀ k, seq (t.put m') k = seq t k := fun k => by
    rw [seq, hids, seq]
  refine ⟨fun k _ => hseq k, fun k k' hk hk' => ?_, fun k m1 hm1 => ?_⟩
  · rw [hseq, hseq]
    exact Grows.refl.fresh k k' hk hk'
  · by_cases hk : k = m.id
    · subst hk
      obtain rfl := Option.some.inj (h.symm.trans hm1)
      exact ⟨m', by rw [Table.get_put, if_pos hid.symm], hl, ht, hq⟩
    · exact ⟨m1, by rw [Table.get_put, if_neg fun he => hk (he.trans hid), hm1], rfl, rfl, fun h => h⟩

theorem grows_advanceClaude {next : DeliveryState} {turnId : Option String} {r : Option Message}
    (h : s.advanceClaude id next turnId now = .ok (s', r)) : Grows s.messages s'.messages := by
  unfold Store.advanceClaude at h
  cases hget : s.messages.get id with
  | none =>
    rw [hget] at h
    obtain ⟨rfl, -⟩ := Prod.mk.inj (Except.ok.inj h)
    exact .refl
  | some m =>
    rw [hget] at h
    obtain rfl := Store.id_of_message hget
    simp only at h
    split_ifs at h with hcan
    · rw [bind_eq_ok] at h
      obtain ⟨at_, -, h⟩ := h
      obtain ⟨rfl, -⟩ := Prod.mk.inj (Except.ok.inj h)
      refine grows_put hget rfl rfl rfl fun hq => ?_
      obtain rfl : next = .queued := hq
      cases hs : m.state <;> rw [hs] at hcan <;> cases hcan
    · obtain ⟨rfl, -⟩ := Prod.mk.inj (Except.ok.inj h)
      exact .refl

theorem grows_advance {next : DeliveryState} {turnId : Option String} {r : Option Message}
    (h : s.advance id next turnId now = .ok (s', r)) : Grows s.messages s'.messages :=
  grows_advanceClaude (require_bind_eq_ok.mp h).2

theorem grows_markAttempted (h : s.markAttempted id now = .ok s') :
    Grows s.messages s'.messages := by
  unfold Store.markAttempted at h
  rw [bind_eq_ok] at h
  obtain ⟨at_, -, h⟩ := h
  cases hget : s.messages.get id with
  | none =>
    rw [hget] at h
    obtain rfl := Except.ok.inj h
    exact .refl
  | some m =>
    rw [hget] at h
    obtain rfl := Store.id_of_message hget
    simp only at h
    split_ifs at h
    · obtain rfl := Except.ok.inj h
      exact grows_put hget rfl rfl rfl fun hq => hq
    · obtain rfl := Except.ok.inj h
      exact .refl

theorem grows_markSent (h : s.markSent m now = .ok s') : Grows s.messages s'.messages := by
  unfold Store.markSent at h
  split_ifs at h
  · obtain ⟨⟨s1, r⟩, hs1, rfl⟩ := map_eq_ok.mp h
    exact grows_advanceClaude hs1
  · obtain rfl := Except.ok.inj h
    exact .refl

theorem grows_markFailed (h : s.markFailed m now = .ok s') : Grows s.messages s'.messages := by
  unfold Store.markFailed at h
  split_ifs at h
  · obtain rfl := Except.ok.inj h
    exact .refl
  · obtain ⟨⟨s1, r⟩, hs1, rfl⟩ := map_eq_ok.mp h
    exact grows_advanceClaude hs1

theorem grows_claimMessage {new : NewMessage} {c : Claim}
    (h : s.claimMessage new now = .ok (s', c)) : Grows s.messages s'.messages := by
  rcases claimMessage_eq_ok h with rfl | ⟨m, -, -, hnone, rfl⟩
  · exact .refl
  · rw [(insertMessage_cases s m).1]
    exact grows_insert hnone

theorem grows_start {d : ClaudeDelivery} {new : NewClaudeDelivery} {r : ClaudeReservation}
    (h : s.start d new now = .ok (s', r)) : Grows s.messages s'.messages := by
  unfold Store.start at h
  rw [bind_eq_ok] at h
  obtain ⟨m, -, h⟩ := h
  rw [require_bind_eq_ok] at h
  obtain ⟨-, h⟩ := h
  rw [bind_eq_ok] at h
  obtain ⟨target, -, h⟩ := h
  rw [require_bind_eq_ok] at h
  obtain ⟨-, h⟩ := h
  rw [bind_eq_ok] at h
  obtain ⟨paused, -, h⟩ := h
  split_ifs at h
  · obtain ⟨rfl, -⟩ := Prod.mk.inj (Except.ok.inj h)
    exact .refl
  · rw [bind_eq_ok] at h
    obtain ⟨started, -, h⟩ := h
    rw [bind_eq_ok] at h
    obtain ⟨s1, hs1, h⟩ := h
    obtain rfl := Store.putAttempt_eq_ok hs1
    rw [bind_eq_ok] at h
    obtain ⟨s2, hs2, h⟩ := h
    rw [bind_eq_ok] at h
    obtain ⟨result, -, h⟩ := h
    obtain ⟨rfl, -⟩ := Prod.mk.inj (Except.ok.inj h)
    have hgrows := grows_markAttempted hs2
    exact hgrows

theorem grows_reserve {new : NewClaudeDelivery} {r : ClaudeReservation}
    (h : s.reserve new now = .ok (s', r)) : Grows s.messages s'.messages := by
  unfold Store.reserve at h
  rw [require_bind_eq_ok] at h
  obtain ⟨-, h⟩ := h
  rw [bind_eq_ok] at h
  obtain ⟨d, -, h⟩ := h
  split at h
  · rw [require_bind_eq_ok] at h
    obtain ⟨rfl, -⟩ := Prod.mk.inj (Except.ok.inj h.2)
    exact .refl
  · exact grows_start h

theorem grows_written {delivery : String} {r : ClaudeDelivery}
    (h : s.written id delivery now = .ok (s', r)) : Grows s.messages s'.messages := by
  unfold Store.written at h
  rw [bind_eq_ok] at h
  obtain ⟨d, -, h⟩ := h
  rw [bind_eq_ok] at h
  obtain ⟨a, -, h⟩ := h
  rw [require_bind_eq_ok] at h
  obtain ⟨-, h⟩ := h
  rw [bind_eq_ok] at h
  obtain ⟨m, -, h⟩ := h
  rw [require_bind_eq_ok] at h
  obtain ⟨-, h⟩ := h
  rw [require_bind_eq_ok] at h
  obtain ⟨-, h⟩ := h
  rw [bind_eq_ok] at h
  obtain ⟨s1, hs1, h⟩ := h
  rw [bind_eq_ok] at h
  obtain ⟨t, -, h⟩ := h
  obtain ⟨rfl, -⟩ := Prod.mk.inj (Except.ok.inj h)
  have hgrows := grows_markSent hs1
  exact hgrows

theorem grows_confirm {d : ClaudeDelivery} {a : ClaudeAttempt} {ack : ClaudeAck} {eventId : String}
    (h : s.confirm d a m ack eventId now = .ok s') : Grows s.messages s'.messages := by
  unfold Store.confirm at h
  rw [require_bind_eq_ok] at h
  obtain ⟨-, h⟩ := h
  rw [bind_eq_ok] at h
  obtain ⟨s1, hs1, h⟩ := h
  rw [bind_eq_ok] at h
  obtain ⟨⟨s2, r⟩, hs2, h⟩ := h
  rw [bind_eq_ok] at h
  obtain ⟨at_, -, h⟩ := h
  have hgrows := (grows_markSent hs1).trans (grows_advanceClaude hs2)
  rw [(appendEvent_eq_ok h).1]
  exact hgrows

theorem grows_acknowledge {ack : ClaudeAck} {eventId : String} {r : ClaudeAckResult}
    (h : s.acknowledge ack eventId now = .ok (s', r)) : Grows s.messages s'.messages := by
  unfold Store.acknowledge at h
  rw [bind_eq_ok] at h
  obtain ⟨d, -, h⟩ := h
  rw [bind_eq_ok] at h
  obtain ⟨a, -, h⟩ := h
  rw [require_bind_eq_ok] at h
  obtain ⟨-, h⟩ := h
  rw [bind_eq_ok] at h
  obtain ⟨m, -, h⟩ := h
  rw [require_bind_eq_ok] at h
  obtain ⟨-, h⟩ := h
  split at h
  · rw [require_bind_eq_ok] at h
    obtain ⟨rfl, -⟩ := Prod.mk.inj (Except.ok.inj h.2)
    exact .refl
  · obtain ⟨s1, hs1, he⟩ := map_eq_ok.mp h
    cases he
    exact grows_confirm hs1

theorem grows_abandon {reason : String} {r : ClaudeDelivery}
    (h : s.abandon id reason now = .ok (s', r)) : Grows s.messages s'.messages := by
  unfold Store.abandon at h
  rw [require_bind_eq_ok] at h
  obtain ⟨-, h⟩ := h
  rw [bind_eq_ok] at h
  obtain ⟨d, -, h⟩ := h
  rw [bind_eq_ok] at h
  obtain ⟨m, -, h⟩ := h
  rw [require_bind_eq_ok] at h
  obtain ⟨-, h⟩ := h
  split at h
  · obtain ⟨rfl, -⟩ := Prod.mk.inj (Except.ok.inj h)
    exact .refl
  · rw [bind_eq_ok] at h
    obtain ⟨s1, hs1, h⟩ := h
    rw [bind_eq_ok] at h
    obtain ⟨at_, -, h⟩ := h
    obtain ⟨rfl, -⟩ := Prod.mk.inj (Except.ok.inj h)
    have hgrows := grows_markFailed hs1
    exact hgrows

theorem grows_abandonUnknown {reason : String}
    (h : s.abandonUnknownClaude id reason now = .ok s') : Grows s.messages s'.messages := by
  unfold Store.abandonUnknownClaude at h
  rw [bind_eq_ok] at h
  obtain ⟨d, -, h⟩ := h
  rw [bind_eq_ok] at h
  obtain ⟨m, -, h⟩ := h
  rw [require_bind_eq_ok] at h
  obtain ⟨-, h⟩ := h
  rw [bind_eq_ok] at h
  obtain ⟨⟨s1, r⟩, hs1, h⟩ := h
  obtain rfl := Except.ok.inj h
  exact grows_abandon hs1

theorem grows_release {delivery : String} (h : s.releaseRefusedClaudeKey id delivery = .ok s') :
    Grows s.messages s'.messages := by
  unfold Store.releaseRefusedClaudeKey at h
  rw [bind_eq_ok] at h
  obtain ⟨d, -, h⟩ := h
  rw [bind_eq_ok] at h
  obtain ⟨m, hm, h⟩ := h
  rw [require_bind_eq_ok] at h
  obtain ⟨-, h⟩ := h
  obtain rfl := Except.ok.inj h
  have hget := Store.requiredMessage_eq_ok hm
  obtain rfl := Store.id_of_message hget
  exact grows_put hget rfl rfl rfl fun hq => hq

theorem grows_call {op : Operation} : Grows s.messages (s.call op).1.messages := by
  have hs : runtime.step s op (s.call op).1 (s.call op).2 := rfl
  by_cases hop : op.delivers = false
  · rw [((shift_of_step hs).deliveries_eq hop).1]
    exact .refl
  · unfold Store.call
    split
    · rename_i s1 reply hexec
      cases op with
      | claimMessage new now =>
        obtain ⟨⟨s2, r⟩, h, he⟩ := map_eq_ok.mp hexec
        cases he
        exact grows_claimMessage h
      | advance id next turnId now =>
        obtain ⟨⟨s2, r⟩, h, he⟩ := map_eq_ok.mp hexec
        cases he
        exact grows_advance h
      | reserve new now =>
        obtain ⟨⟨s2, r⟩, h, he⟩ := map_eq_ok.mp hexec
        cases he
        exact grows_reserve h
      | written id delivery now =>
        obtain ⟨⟨s2, r⟩, h, he⟩ := map_eq_ok.mp hexec
        cases he
        exact grows_written h
      | acknowledge ack eventId now =>
        obtain ⟨⟨s2, r⟩, h, he⟩ := map_eq_ok.mp hexec
        cases he
        exact grows_acknowledge h
      | abandon id reason now =>
        obtain ⟨⟨s2, r⟩, h, he⟩ := map_eq_ok.mp hexec
        cases he
        exact grows_abandon h
      | abandonUnknown id reason now =>
        obtain ⟨s2, h, he⟩ := map_eq_ok.mp hexec
        cases he
        exact grows_abandonUnknown h
      | release message delivery =>
        obtain ⟨s2, h, he⟩ := map_eq_ok.mp hexec
        cases he
        exact grows_release h
      | _ => exact absurd rfl hop
    · exact .refl

end Agend.Codex
