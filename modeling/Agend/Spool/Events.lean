import Agend.Runtime.Coherent

/-! The driver events of the store: what appends them, and that nothing else does. -/
namespace Agend.Runtime

open Library

/-- An event kind of ASCII letters, digits and underscores. -/
def validEventKind (kind : String) : Bool :=
  kind ≠ "" && kind.utf8ByteSize ≤ 64 && kind.toList.all fun c => c.isAlphanum || c = '_'

namespace Store

variable {s s' : Store} {id : String} {now : Nat} {m : Message} {d : ClaudeDelivery}
  {event old : DriverEvent} {object : String → Bool} {inserted : Bool}

/-- `append` of a hook; `object` says whether SQLite reads the text as a JSON object. -/
def appendDriverEvent (object : String → Bool) (s : Store) (event : DriverEvent) (now : Nat) :
    Except String (Store × Bool) := do
  require (isUuidV4 event.id = true ∧ isUuidV4 event.sessionId = true)
    (eventError "event and session ids must be UUID v4")
  require (validateId event.instanceId = true) (invalidId event.instanceId)
  require (validEventKind event.kind = true) (eventError "invalid event kind")
  require (event.payload.utf8ByteSize ≤ 1024 * 1024) (eventError "payload exceeds 1 MiB")
  require (object event.payload = true) (eventError "payload must be a JSON object")
  let _ ← ms event.occurredAtUnixMs
  let _ ← ms now
  match s.events.get event.id with
  | some old => do
    require ({ event with replayed := old.replayed } = old)
      (eventError "event id already has different content")
    return (s, false)
  | none => return ({ s with events := s.events.put event }, true)

/-- An event that the history takes. -/
structure Takes (object : String → Bool) (event : DriverEvent) : Prop where
  ids : isUuidV4 event.id = true ∧ isUuidV4 event.sessionId = true
  instanceId : validateId event.instanceId = true
  kind : validEventKind event.kind = true
  payload : event.payload.utf8ByteSize ≤ 1024 * 1024
  object : object event.payload = true
  time : event.occurredAtUnixMs < 2 ^ 63

theorem ms_lt {value value' : Nat} (h : ms value = .ok value') : value < 2 ^ 63 := by
  unfold ms at h
  split_ifs at h with hlt
  exact hlt

/-- An append that succeeds found the event, or inserted it. -/
theorem appendDriverEvent_eq_ok (h : s.appendDriverEvent object event now = .ok (s', inserted)) :
    Takes object event ∧ (
      inserted = false ∧ s' = s ∧
        (∃ old, s.events.get event.id = some old ∧ { event with replayed := old.replayed } = old) ∨
      inserted = true ∧ s.events.get event.id = none ∧
        s' = { s with events := s.events.put event }) := by
  unfold appendDriverEvent at h
  rw [require_bind_eq_ok] at h
  obtain ⟨hids, h⟩ := h
  rw [require_bind_eq_ok] at h
  obtain ⟨hinstance, h⟩ := h
  rw [require_bind_eq_ok] at h
  obtain ⟨hkind, h⟩ := h
  rw [require_bind_eq_ok] at h
  obtain ⟨hpayload, h⟩ := h
  rw [require_bind_eq_ok] at h
  obtain ⟨hobject, h⟩ := h
  rw [bind_eq_ok] at h
  obtain ⟨at_, hat, h⟩ := h
  rw [bind_eq_ok] at h
  obtain ⟨now', -, h⟩ := h
  refine ⟨⟨hids, hinstance, hkind, hpayload, hobject, ms_lt hat⟩, ?_⟩
  split at h
  · rename_i old hold
    rw [require_bind_eq_ok] at h
    obtain ⟨hsame, h⟩ := h
    obtain ⟨rfl, rfl⟩ := Prod.mk.inj (Except.ok.inj h)
    exact .inl ⟨rfl, rfl, old, hold, hsame⟩
  · rename_i hnone
    obtain ⟨rfl, rfl⟩ := Prod.mk.inj (Except.ok.inj h)
    exact .inr ⟨rfl, hnone, rfl⟩

/-- The event of a hook that is stored is found again, though its replayed flag differs. -/
theorem appendDriverEvent_of_stored (ht : Takes object event) (hnow : now < 2 ^ 63)
    (hold : s.events.get event.id = some old)
    (hsame : { event with replayed := old.replayed } = old) :
    s.appendDriverEvent object event now = .ok (s, false) := by
  simp only [appendDriverEvent, require, ms, ht.ids, ht.instanceId, ht.kind, ht.payload, ht.object,
    ht.time, hnow, hold, hsame, and_self, if_true]
  rfl

/-! The other calls. -/

theorem events_advanceClaude {next : DeliveryState} {turnId : Option String} {r : Option Message}
    (h : s.advanceClaude id next turnId now = .ok (s', r)) : s'.events = s.events := by
  unfold advanceClaude at h
  split at h
  · cases h
    rfl
  · split_ifs at h
    · rw [bind_eq_ok] at h
      obtain ⟨t, -, h⟩ := h
      cases h
      rfl
    · cases h
      rfl

theorem events_markSent (h : s.markSent m now = .ok s') : s'.events = s.events := by
  unfold markSent at h
  split_ifs at h
  · obtain ⟨⟨s1, r⟩, hs1, rfl⟩ := map_eq_ok.mp h
    exact events_advanceClaude hs1
  · cases h
    rfl

theorem events_markFailed (h : s.markFailed m now = .ok s') : s'.events = s.events := by
  unfold markFailed at h
  split_ifs at h
  · cases h
    rfl
  · obtain ⟨⟨s1, r⟩, hs1, rfl⟩ := map_eq_ok.mp h
    exact events_advanceClaude hs1

theorem events_markAttempted (h : s.markAttempted id now = .ok s') : s'.events = s.events := by
  unfold markAttempted at h
  rw [bind_eq_ok] at h
  obtain ⟨t, -, h⟩ := h
  split at h
  · cases h
    rfl
  · split_ifs at h <;> cases h <;> rfl

theorem events_reserve {new : NewClaudeDelivery} {r : ClaudeReservation}
    (h : s.reserve new now = .ok (s', r)) : s'.events = s.events := by
  unfold reserve at h
  rw [require_bind_eq_ok] at h
  obtain ⟨-, h⟩ := h
  rw [bind_eq_ok] at h
  obtain ⟨stored, -, h⟩ := h
  split at h
  · rw [require_bind_eq_ok] at h
    obtain ⟨-, h⟩ := h
    cases h
    rfl
  · unfold start at h
    rw [bind_eq_ok] at h
    obtain ⟨message, -, h⟩ := h
    rw [require_bind_eq_ok] at h
    obtain ⟨-, h⟩ := h
    rw [bind_eq_ok] at h
    obtain ⟨target, -, h⟩ := h
    rw [require_bind_eq_ok] at h
    obtain ⟨-, h⟩ := h
    rw [bind_eq_ok] at h
    obtain ⟨paused, -, h⟩ := h
    split_ifs at h
    · cases h
      rfl
    · rw [bind_eq_ok] at h
      obtain ⟨started, -, h⟩ := h
      rw [bind_eq_ok] at h
      obtain ⟨s1, hs1, h⟩ := h
      rw [bind_eq_ok] at h
      obtain ⟨s2, hs2, h⟩ := h
      rw [bind_eq_ok] at h
      obtain ⟨result, -, h⟩ := h
      cases h
      rw [events_markAttempted hs2]
      unfold putAttempt at hs1
      rw [require_bind_eq_ok] at hs1
      obtain ⟨-, hs1⟩ := hs1
      cases hs1
      rfl

theorem events_written {delivery : String} {r : ClaudeDelivery}
    (h : s.written id delivery now = .ok (s', r)) : s'.events = s.events := by
  unfold written at h
  rw [bind_eq_ok] at h
  obtain ⟨stored, -, h⟩ := h
  rw [bind_eq_ok] at h
  obtain ⟨attempt, -, h⟩ := h
  rw [require_bind_eq_ok] at h
  obtain ⟨-, h⟩ := h
  rw [bind_eq_ok] at h
  obtain ⟨message, -, h⟩ := h
  rw [require_bind_eq_ok] at h
  obtain ⟨-, h⟩ := h
  rw [require_bind_eq_ok] at h
  obtain ⟨-, h⟩ := h
  rw [bind_eq_ok] at h
  obtain ⟨s1, hs1, h⟩ := h
  rw [bind_eq_ok] at h
  obtain ⟨t, -, h⟩ := h
  cases h
  change s1.events = s.events
  exact events_markSent hs1

theorem events_abandon {reason : String} {r : ClaudeDelivery}
    (h : s.abandon id reason now = .ok (s', r)) : s'.events = s.events := by
  unfold abandon at h
  rw [require_bind_eq_ok] at h
  obtain ⟨-, h⟩ := h
  rw [bind_eq_ok] at h
  obtain ⟨stored, -, h⟩ := h
  rw [bind_eq_ok] at h
  obtain ⟨message, -, h⟩ := h
  rw [require_bind_eq_ok] at h
  obtain ⟨-, h⟩ := h
  split at h
  · cases h
    rfl
  · rw [bind_eq_ok] at h
    obtain ⟨s1, hs1, h⟩ := h
    rw [bind_eq_ok] at h
    obtain ⟨t, -, h⟩ := h
    cases h
    change s1.events = s.events
    exact events_markFailed hs1

theorem events_abandonUnknown {reason : String}
    (h : s.abandonUnknownClaude id reason now = .ok s') : s'.events = s.events := by
  unfold abandonUnknownClaude at h
  rw [bind_eq_ok] at h
  obtain ⟨stored, -, h⟩ := h
  rw [bind_eq_ok] at h
  obtain ⟨message, -, h⟩ := h
  rw [require_bind_eq_ok] at h
  obtain ⟨-, h⟩ := h
  rw [bind_eq_ok] at h
  obtain ⟨⟨s1, r⟩, hs1, h⟩ := h
  cases h
  exact events_abandon hs1

theorem events_release {delivery : String} (h : s.releaseRefusedClaudeKey id delivery = .ok s') :
    s'.events = s.events := by
  unfold releaseRefusedClaudeKey at h
  rw [bind_eq_ok] at h
  obtain ⟨stored, -, h⟩ := h
  rw [bind_eq_ok] at h
  obtain ⟨message, -, h⟩ := h
  rw [require_bind_eq_ok] at h
  obtain ⟨-, h⟩ := h
  cases h
  rfl

/-- The event of an acknowledgement may be added. -/
def Adds (eventId : String) (s s' : Store) : Prop :=
  s'.events = s.events ∨ ∃ event, event.id = eventId ∧ s.events.get eventId = none ∧
    s'.events = s.events.put event

theorem adds_appendEvent (h : s.appendEvent event now = .ok s') : Adds event.id s s' := by
  unfold appendEvent at h
  rw [require_bind_eq_ok] at h
  obtain ⟨-, h⟩ := h
  rw [require_bind_eq_ok] at h
  obtain ⟨-, h⟩ := h
  rw [require_bind_eq_ok] at h
  obtain ⟨-, h⟩ := h
  rw [bind_eq_ok] at h
  obtain ⟨at_, -, h⟩ := h
  rw [bind_eq_ok] at h
  obtain ⟨now', -, h⟩ := h
  split at h
  · rw [require_bind_eq_ok] at h
    obtain ⟨-, h⟩ := h
    cases h
    exact .inl rfl
  · cases h
    exact .inr ⟨event, rfl, ‹_›, rfl⟩

theorem adds_acknowledge {ack : ClaudeAck} {eventId : String} {r : ClaudeAckResult}
    (h : s.acknowledge ack eventId now = .ok (s', r)) : Adds eventId s s' := by
  unfold acknowledge at h
  rw [bind_eq_ok] at h
  obtain ⟨stored, -, h⟩ := h
  rw [bind_eq_ok] at h
  obtain ⟨attempt, -, h⟩ := h
  rw [require_bind_eq_ok] at h
  obtain ⟨-, h⟩ := h
  rw [bind_eq_ok] at h
  obtain ⟨message, -, h⟩ := h
  rw [require_bind_eq_ok] at h
  obtain ⟨-, h⟩ := h
  split at h
  · rw [require_bind_eq_ok] at h
    obtain ⟨-, h⟩ := h
    cases h
    exact .inl rfl
  · obtain ⟨s1, hs1, he⟩ := map_eq_ok.mp h
    cases he
    unfold confirm at hs1
    rw [require_bind_eq_ok] at hs1
    obtain ⟨-, hs1⟩ := hs1
    rw [bind_eq_ok] at hs1
    obtain ⟨s2, hs2, hs1⟩ := hs1
    rw [bind_eq_ok] at hs1
    obtain ⟨⟨s3, r3⟩, hs3, hs1⟩ := hs1
    rw [bind_eq_ok] at hs1
    obtain ⟨t, -, hs1⟩ := hs1
    have hsame : s3.events = s.events :=
      (events_advanceClaude hs3).trans (events_markSent hs2)
    have hadds := adds_appendEvent hs1
    unfold Adds at hadds ⊢
    rw [← hsame]
    exact hadds

end Store

open Store

variable {s s' : Store} {op : Operation} {out : Except String Reply}

/-- A call keeps the events, but for the one of an acknowledgement. -/
theorem events_step (hs : runtime.step s op s' out) : s'.events = s.events ∨
    ∃ ack eventId now, op = .acknowledge ack eventId now ∧ Adds eventId s s' := by
  cases shift_of_step hs with
  | delivered hop hf =>
    have hcall : s.call op = (s', out) := hs
    unfold Store.call at hcall
    split at hcall
    · rename_i s1 reply hexec
      obtain ⟨rfl, rfl⟩ := Prod.mk.inj hcall
      cases op with
      | claimMessage new now =>
        obtain ⟨⟨s2, c⟩, h, he⟩ := map_eq_ok.mp hexec
        cases he
        rcases claimMessage_eq_ok h with rfl | ⟨m, -, -, -, rfl⟩
        · exact .inl rfl
        · refine .inl ?_
          simp only [insertMessage]
          split
          · split_ifs <;> rfl
          · rfl
      | advance id next turnId now =>
        obtain ⟨⟨s2, r⟩, h, he⟩ := map_eq_ok.mp hexec
        cases he
        unfold advance at h
        rw [require_bind_eq_ok] at h
        exact .inl (events_advanceClaude h.2)
      | reserve new now =>
        obtain ⟨⟨s2, r⟩, h, he⟩ := map_eq_ok.mp hexec
        cases he
        exact .inl (events_reserve h)
      | written id delivery now =>
        obtain ⟨⟨s2, r⟩, h, he⟩ := map_eq_ok.mp hexec
        cases he
        exact .inl (events_written h)
      | acknowledge ack eventId now =>
        obtain ⟨⟨s2, r⟩, h, he⟩ := map_eq_ok.mp hexec
        cases he
        exact .inr ⟨ack, eventId, now, rfl, adds_acknowledge h⟩
      | abandon id reason now =>
        obtain ⟨⟨s2, r⟩, h, he⟩ := map_eq_ok.mp hexec
        cases he
        exact .inl (events_abandon h)
      | abandonUnknown id reason now =>
        obtain ⟨s2, h, he⟩ := map_eq_ok.mp hexec
        cases he
        exact .inl (events_abandonUnknown h)
      | release message delivery =>
        obtain ⟨s2, h, he⟩ := map_eq_ok.mp hexec
        cases he
        exact .inl (events_release h)
      | _ => cases hop
    · obtain ⟨rfl, rfl⟩ := Prod.mk.inj hcall
      exact .inl rfl
  | _ => exact .inl rfl

/-- The message of the acknowledgement is confirmed, and its delivery is the one that was
acknowledged. -/
structure Confirmed (s : Store) (ack : ClaudeAck) : Prop where
  message : ∃ m, s.messages.get ack.messageId = some m ∧ m.state = .confirmed
  delivery : ∃ d a, s.deliveries.get ack.messageId = some d ∧ d.attempt = some a ∧
    d.instanceId = ack.instanceId ∧ a.deliveryId = ack.deliveryId ∧ a.sessionId = ack.sessionId

theorem confirmed_of_acknowledge {ack : ClaudeAck} {eventId : String} {now : Nat}
    {r : ClaudeAckResult} (h : s.acknowledge ack eventId now = .ok (s', r)) :
    Confirmed s' ack ∧ (r = .confirmed → ¬ Confirmed s ack) := by
  obtain ⟨m, d, a, ha, hinst, hid, hsession, -, hm, hd, hor⟩ := acknowledge_eq_ok h
  rcases hor with ⟨rfl, rfl, hc⟩ | ⟨rfl, -, hc, -, m', hmove, hw⟩
  · exact ⟨⟨⟨m, hm, hc⟩, d, a, hd, ha, hinst, hid, hsession⟩, nofun⟩
  · have hm' : s'.messages.get ack.messageId = some m' := by rw [hw.messages, if_pos rfl]
    have hd' := hw.deliveries ack.messageId
    rw [if_pos rfl] at hd'
    refine ⟨⟨⟨m', hm', hmove.state⟩, _, a.acknowledged now, hd', rfl, hinst, hid, hsession⟩,
      fun _ hold => ?_⟩
    obtain ⟨m1, hm1, hc1⟩ := hold.message
    rw [hm] at hm1
    exact hc (Option.some.inj hm1 ▸ hc1)

/-- What a call on one message leaves of a confirmed one. -/
theorem Confirmed.rewrites {ack : ClaudeAck} {id : String} {m m' : Message} {d d' : ClaudeDelivery}
    (hc : Confirmed s ack) (hw : Rewrites s s' id m m' d d')
    (h : m.state = .confirmed → ∀ a, d.attempt = some a → m'.state = .confirmed ∧
      d'.instanceId = d.instanceId ∧ ∃ a', d'.attempt = some a' ∧ a'.deliveryId = a.deliveryId ∧
        a'.sessionId = a.sessionId) : Confirmed s' ack := by
  obtain ⟨⟨m1, hm1, hstate⟩, d1, a1, hd1, ha1, hinst, hid, hsession⟩ := hc
  have hm' := hw.messages ack.messageId
  have hd' := hw.deliveries ack.messageId
  by_cases hk : ack.messageId = id
  · rw [if_pos hk] at hm' hd'
    rw [hk] at hm1 hd1
    obtain rfl : m = m1 := Option.some.inj (hw.message.symm.trans hm1)
    obtain rfl : d = d1 := Option.some.inj (hw.delivery.symm.trans hd1)
    obtain ⟨hstate', hinst', a', ha', hid', hsession'⟩ := h hstate a1 ha1
    exact ⟨⟨m', hm', hstate'⟩, d', a', hd', ha', hinst'.trans hinst, hid'.trans hid,
      hsession'.trans hsession⟩
  · rw [if_neg hk] at hm' hd'
    exact ⟨⟨m1, hm'.trans hm1, hstate⟩, d1, a1, hd'.trans hd1, ha1, hinst, hid, hsession⟩

/-- What is confirmed stays so. -/
theorem Confirmed.step {ack : ClaudeAck} (hs : runtime.step s op s' out) (hc : Confirmed s ack) :
    Confirmed s' ack := by
  obtain ⟨⟨m1, hm1, hstate⟩, d1, a1, hd1, ha1, hinst, hid, hsession⟩ := hc
  have hc : Confirmed s ack := ⟨⟨m1, hm1, hstate⟩, d1, a1, hd1, ha1, hinst, hid, hsession⟩
  cases turn_of_step hs with
  | quiet hm hd ha =>
    exact ⟨⟨m1, by rw [hm, hm1], hstate⟩, d1, a1, by rw [hd, hd1], ha1, hinst, hid, hsession⟩
  | @inserted _ _ _ m hq hat hnone hm hd ha =>
    have hne : ack.messageId ≠ m.id := by
      rintro heq
      rw [← heq, hm1] at hnone
      cases hnone
    refine ⟨⟨m1, ?_, hstate⟩, d1, a1, ?_, ha1, hinst, hid, hsession⟩
    · rw [hm, Table.get_put_of_ne hne, hm1]
    · rcases hd with hd | hd
      · rw [hd, hd1]
      · have hne' : ack.messageId ≠
            (⟨m.id, m.toInstance, none, none, none⟩ : ClaudeDelivery).messageId := hne
        rw [hd, Table.get_put_of_ne hne', hd1]
  | @advanced _ _ _ id m m' next hnone hget hcan hmove hm hd ha =>
    have hne : ack.messageId ≠ m'.id := by
      rintro heq
      rw [hmove.id, id_of_message hget] at heq
      rw [← heq, hd1] at hnone
      cases hnone
    refine ⟨⟨m1, ?_, hstate⟩, d1, a1, by rw [hd, hd1], ha1, hinst, hid, hsession⟩
    rw [hm, Table.get_put_of_ne hne, hm1]
  | started hst he hw =>
    refine hc.rewrites hw fun _ a ha => ?_
    obtain ⟨-, -, -, -, hnone, -⟩ := ClaudeDelivery.mayStart_iff.mp hst.mayStart
    rw [hnone] at ha
    cases ha
  | written ha hdel hlive hf hmove he hw =>
    refine hc.rewrites hw fun hconf a1 ha1 => ?_
    rw [ha] at ha1
    cases ha1
    rw [hmove.state, if_neg (by rw [hconf]; exact nofun), he]
    exact ⟨hconf, rfl, _, rfl, rfl, rfl⟩
  | acknowledged ha hin hdel hses hlive hno hcon hf hmove he hw =>
    exact hc.rewrites hw fun hconf _ _ => absurd hconf hcon
  | repeated => exact hc
  | abandoned hcon hlive hmove he hw =>
    exact hc.rewrites hw fun hconf _ _ => absurd hconf hcon
  | released ha hdel hsent hconfirmed hlive hq hw =>
    refine hc.rewrites hw fun hconf _ _ => ?_
    rw [hq] at hconf
    cases hconf

end Agend.Runtime
