import Agend.Runtime.Switch

/-! What each delivery call does to one message and its delivery. -/
namespace Agend.Runtime

open Library

variable {s s' : Store} {id delivery reason : String} {m : Message} {d : ClaudeDelivery}
  {a : ClaudeAttempt} {now : Nat}

/-- The tables that a delivery call leaves alone. -/
structure Frame (s s' : Store) : Prop where
  instances : s'.instances = s.instances
  launches : s'.launches = s.launches
  switches : s'.switches = s.switches

theorem Frame.refl : Frame s s :=
  ⟨rfl, rfl, rfl⟩

theorem Frame.trans {s1 : Store} (h : Frame s s1) (h' : Frame s1 s') : Frame s s' :=
  ⟨h'.instances.trans h.instances, h'.launches.trans h.launches, h'.switches.trans h.switches⟩

/-- The message is in `state` now and keeps what identifies it. -/
structure MovesTo (m m' : Message) (state : DeliveryState) : Prop where
  id : m'.id = m.id
  toInstance : m'.toInstance = m.toInstance
  attempted : m'.attemptedAtUnixMs = m.attemptedAtUnixMs
  state : m'.state = state

/-- One message is rewritten, the deliveries stay. -/
structure Marks (s s' : Store) (m m' : Message) : Prop extends Frame s s' where
  messages : ∀ k, s'.messages.get k = if k = m.id then some m' else s.messages.get k
  deliveries : s'.deliveries = s.deliveries

/-- One message and its delivery are rewritten, the others stay. -/
structure Rewrites (s s' : Store) (id : String) (m m' : Message) (d d' : ClaudeDelivery) : Prop
    extends Frame s s' where
  message : s.messages.get id = some m
  delivery : s.deliveries.get id = some d
  messages : ∀ k, s'.messages.get k = if k = id then some m' else s.messages.get k
  deliveries : ∀ k, s'.deliveries.get k = if k = id then some d' else s.deliveries.get k

theorem MovesTo.refl : MovesTo m m m.state :=
  ⟨rfl, rfl, rfl, rfl⟩

theorem MovesTo.trans {m1 m' : Message} {state1 state : DeliveryState} (h : MovesTo m m1 state1)
    (h' : MovesTo m1 m' state) : MovesTo m m' state :=
  ⟨h'.id.trans h.id, h'.toInstance.trans h.toInstance, h'.attempted.trans h.attempted, h'.state⟩

theorem ms_eq_ok {value value' : Nat} (h : ms value = .ok value') : value' = value := by
  unfold ms at h
  split_ifs at h
  exact (Except.ok.inj h).symm

namespace Store

theorem id_of_message (h : s.messages.get id = some m) : m.id = id :=
  (Table.get_eq_some.mp h).2

theorem id_of_delivery (h : s.deliveries.get id = some d) : d.messageId = id :=
  (Table.get_eq_some.mp h).2

theorem requiredMessage_eq_ok (h : s.requiredMessage id = .ok m) : s.messages.get id = some m :=
  okOr_eq_ok.mp h

theorem requiredDelivery_eq_ok (h : s.requiredDelivery id = .ok d) :
    s.deliveries.get id = some d :=
  okOr_eq_ok.mp h

theorem advanceClaude_eq_ok {next : DeliveryState} {turnId : Option String} {r : Option Message}
    (hget : s.messages.get id = some m) (hcan : m.state.canTransitionTo next = true)
    (h : s.advanceClaude id next turnId now = .ok (s', r)) :
    ∃ m', MovesTo m m' next ∧ s' = { s with messages := s.messages.put m' } := by
  unfold advanceClaude at h
  rw [hget] at h
  simp only [if_pos hcan] at h
  rw [bind_eq_ok] at h
  obtain ⟨t, -, h⟩ := h
  obtain ⟨rfl, -⟩ := Prod.mk.inj (Except.ok.inj h)
  refine ⟨_, ?_, rfl⟩
  exact ⟨rfl, rfl, rfl, rfl⟩

theorem marks_put {m' : Message} {state : DeliveryState} (hm : MovesTo m m' state) :
    Marks s { s with messages := s.messages.put m' } m m' :=
  ⟨⟨rfl, rfl, rfl⟩, fun k => by rw [Table.get_put, hm.id], rfl⟩

theorem marks_self (hget : s.messages.get m.id = some m) : Marks s s m m := by
  refine ⟨.refl, fun k => ?_, rfl⟩
  split_ifs with hk
  · rw [hk, hget]
  · rfl

/-- A queued message is sent, another keeps its state. -/
theorem markSent_eq_ok (hget : s.messages.get m.id = some m) (h : s.markSent m now = .ok s') :
    ∃ m', MovesTo m m' (if m.state = .queued then .sent else m.state) ∧ Marks s s' m m' := by
  unfold markSent at h
  split_ifs at h with hq
  · obtain ⟨⟨s1, r⟩, hs1, rfl⟩ := map_eq_ok.mp h
    obtain ⟨m', hm, rfl⟩ := advanceClaude_eq_ok hget (by rw [hq]; rfl) hs1
    rw [if_pos hq]
    exact ⟨m', hm, marks_put hm⟩
  · obtain rfl := Except.ok.inj h
    rw [if_neg hq]
    exact ⟨m, .refl, marks_self hget⟩

/-- A message that was not confirmed fails. -/
theorem markFailed_eq_ok (hget : s.messages.get m.id = some m) (hno : m.state ≠ .confirmed)
    (h : s.markFailed m now = .ok s') : ∃ m', MovesTo m m' .failed ∧ Marks s s' m m' := by
  unfold markFailed at h
  split_ifs at h with hf
  · obtain rfl := Except.ok.inj h
    exact ⟨m, hf ▸ .refl, marks_self hget⟩
  · obtain ⟨⟨s1, r⟩, hs1, rfl⟩ := map_eq_ok.mp h
    have hcan : m.state.canTransitionTo .failed = true := by
      cases hs : m.state with
      | queued | sent => rfl
      | confirmed => exact absurd hs hno
      | failed => exact absurd hs hf
    obtain ⟨m', hm, rfl⟩ := advanceClaude_eq_ok hget hcan hs1
    exact ⟨m', hm, marks_put hm⟩

/-- A marked message with a new row for its delivery. -/
theorem rewrites_put {s1 : Store} {m' : Message} {d' : ClaudeDelivery}
    (hm : s.messages.get id = some m) (hd : s.deliveries.get id = some d)
    (h : Marks s s1 m m') (hid : d'.messageId = d.messageId) :
    Rewrites s { s1 with deliveries := s1.deliveries.put d' } id m m' d d' := by
  obtain rfl := id_of_message hm
  refine ⟨⟨h.instances, h.launches, h.switches⟩, hm, hd, h.messages, fun k => ?_⟩
  rw [Table.get_put, h.deliveries, hid, id_of_delivery hd]

/-- No pending switch holds the content back. -/
theorem deliveryPaused_eq_false {i : String} (h : s.deliveryPaused i = .ok false) :
    ∀ record, s.switches.get i = some record → record.phase.pending = false := by
  intro record hget
  unfold deliveryPaused at h
  obtain ⟨r, hr, hp⟩ := map_eq_ok.mp h
  unfold readSwitch at hr
  rw [hget] at hr
  simp only at hr
  split_ifs at hr
  obtain rfl := Except.ok.inj hr
  exact hp

theorem markAttempted_eq_ok (h : s.markAttempted id now = .ok s')
    (hget : s.messages.get id = some m) (hq : m.state = .queued)
    (hnone : m.attemptedAtUnixMs = none) :
    s' = { s with messages := s.messages.put { m with attemptedAtUnixMs := some now } } := by
  unfold markAttempted at h
  rw [bind_eq_ok] at h
  obtain ⟨t, ht, h⟩ := h
  obtain rfl := ms_eq_ok ht
  rw [hget] at h
  simp only [if_pos hq] at h
  rw [hnone] at h
  exact (Except.ok.inj h).symm

theorem putAttempt_eq_ok (h : s.putAttempt d a = .ok s') :
    s' = { s with deliveries := s.deliveries.put { d with attempt := some a } } :=
  (Except.ok.inj (require_bind_eq_ok.mp h).2).symm

end Store

open Store

theorem ClaudeDelivery.mayStart_iff : d.mayStart m = true ↔
    d.messageId = m.id ∧ d.instanceId = m.toInstance ∧ m.state = .queued ∧
      m.attemptedAtUnixMs = none ∧ d.attempt = none ∧ d.abandonedAtUnixMs = none := by
  simp [mayStart, and_assoc]

/-- What a reservation checked before it started. -/
structure Startable (s : Store) (new : NewClaudeDelivery) (m : Message) (d : ClaudeDelivery) :
    Prop where
  mayStart : d.mayStart m = true
  instanceId : d.instanceId = new.instanceId
  pushes : ∃ target, s.instances.get new.instanceId = some target ∧ target.pushes new.sessionId
  settled : ∀ record, s.switches.get new.instanceId = some record → record.phase.pending = false

/-- The attempt that a reservation saves. -/
def NewClaudeDelivery.attempt (new : NewClaudeDelivery) (now : Nat) : ClaudeAttempt :=
  ⟨new.deliveryId, new.sessionId, new.route, now, none, none⟩

theorem start_eq_ok {new : NewClaudeDelivery} {r : ClaudeReservation}
    (hd : s.deliveries.get new.messageId = some d) (h : s.start d new now = .ok (s', r)) :
    s' = s ∧ r = .paused ∨ ∃ m d', r = .started d' ∧ Startable s new m d ∧
      d' = { d with attempt := some (new.attempt now) } ∧
      Rewrites s s' new.messageId m { m with attemptedAtUnixMs := some now } d d' := by
  unfold start at h
  rw [bind_eq_ok] at h
  obtain ⟨m, hm, h⟩ := h
  rw [require_bind_eq_ok] at h
  obtain ⟨⟨hmay, hinst⟩, h⟩ := h
  rw [bind_eq_ok] at h
  obtain ⟨target, htarget, h⟩ := h
  rw [require_bind_eq_ok] at h
  obtain ⟨hpushes, h⟩ := h
  rw [bind_eq_ok] at h
  obtain ⟨paused, hpaused, h⟩ := h
  have hmget := requiredMessage_eq_ok hm
  split_ifs at h with hp
  · obtain ⟨rfl, rfl⟩ := Prod.mk.inj (Except.ok.inj h)
    exact Or.inl ⟨rfl, rfl⟩
  · rw [bind_eq_ok] at h
    obtain ⟨started, hstarted, h⟩ := h
    obtain rfl := ms_eq_ok hstarted
    rw [bind_eq_ok] at h
    obtain ⟨s1, hs1, h⟩ := h
    obtain rfl := putAttempt_eq_ok hs1
    rw [bind_eq_ok] at h
    obtain ⟨s2, hs2, h⟩ := h
    obtain ⟨-, -, hq, hnone, -, -⟩ := ClaudeDelivery.mayStart_iff.mp hmay
    obtain rfl := markAttempted_eq_ok hs2 hmget hq hnone
    rw [bind_eq_ok] at h
    obtain ⟨result, hresult, h⟩ := h
    obtain ⟨rfl, rfl⟩ := Prod.mk.inj (Except.ok.inj h)
    have hgets : ∀ k, (s.deliveries.put { d with attempt := some (new.attempt started) }).get k =
        if k = new.messageId then some { d with attempt := some (new.attempt started) }
        else s.deliveries.get k := by
      intro k
      rw [Table.get_put]
      exact if_congr (by rw [← id_of_delivery hd]) rfl rfl
    have hval := (requiredDelivery_eq_ok hresult).symm.trans (hgets new.messageId)
    rw [if_pos rfl] at hval
    have hsettled := deliveryPaused_eq_false ((Bool.eq_false_iff.mpr hp) ▸ hpaused)
    refine Or.inr ⟨m, _, rfl, ⟨hmay, hinst, ⟨target, okOr_eq_ok.mp htarget, hpushes⟩, hsettled⟩,
      Option.some.inj hval, ⟨rfl, rfl, rfl⟩, hmget, hd, fun k => ?_, ?_⟩
    · rw [Table.get_put]
      exact if_congr (by rw [← id_of_message hmget]) rfl rfl
    · rw [Option.some.inj hval]
      exact hgets

theorem reserve_eq_ok {new : NewClaudeDelivery} {r : ClaudeReservation}
    (h : s.reserve new now = .ok (s', r)) :
    s' = s ∧ (∀ d', r ≠ .started d') ∨ ∃ m d d', r = .started d' ∧ Startable s new m d ∧
      d' = { d with attempt := some (new.attempt now) } ∧
      Rewrites s s' new.messageId m { m with attemptedAtUnixMs := some now } d d' := by
  unfold reserve at h
  rw [require_bind_eq_ok] at h
  obtain ⟨-, h⟩ := h
  rw [bind_eq_ok] at h
  obtain ⟨d, hd, h⟩ := h
  split at h
  · rw [require_bind_eq_ok] at h
    obtain ⟨-, h⟩ := h
    obtain ⟨rfl, rfl⟩ := Prod.mk.inj (Except.ok.inj h)
    exact Or.inl ⟨rfl, nofun⟩
  · rcases start_eq_ok (requiredDelivery_eq_ok hd) h with ⟨rfl, rfl⟩ | ⟨m, d', hr⟩
    · exact Or.inl ⟨rfl, nofun⟩
    · exact Or.inr ⟨m, d, d', hr⟩

theorem written_eq_ok {r : ClaudeDelivery} (h : s.written id delivery now = .ok (s', r)) :
    ∃ m m' d d' a, d.attempt = some a ∧ a.deliveryId = delivery ∧ d.abandonedAtUnixMs = none ∧
      m.state ≠ .failed ∧ MovesTo m m' (if m.state = .queued then .sent else m.state) ∧
      d' = { d with
        attempt := some { a with sentAtUnixMs := some (a.sentAtUnixMs.getD now) } } ∧
      Rewrites s s' id m m' d d' := by
  unfold written at h
  rw [bind_eq_ok] at h
  obtain ⟨d, hd, h⟩ := h
  rw [bind_eq_ok] at h
  obtain ⟨a, ha, h⟩ := h
  rw [require_bind_eq_ok] at h
  obtain ⟨⟨hdel, hlive⟩, h⟩ := h
  rw [bind_eq_ok] at h
  obtain ⟨m, hm, h⟩ := h
  rw [require_bind_eq_ok] at h
  obtain ⟨hf, h⟩ := h
  rw [require_bind_eq_ok] at h
  obtain ⟨-, h⟩ := h
  rw [bind_eq_ok] at h
  obtain ⟨s1, hs1, h⟩ := h
  rw [bind_eq_ok] at h
  obtain ⟨t, ht, h⟩ := h
  obtain rfl := ms_eq_ok ht
  obtain ⟨rfl, rfl⟩ := Prod.mk.inj (Except.ok.inj h)
  have hmget := requiredMessage_eq_ok hm
  obtain ⟨m', hmove, hmarks⟩ := markSent_eq_ok ((id_of_message hmget).symm ▸ hmget) hs1
  exact ⟨m, m', d, _, a, okOr_eq_ok.mp ha, hdel, hlive, hf, hmove, rfl,
    rewrites_put hmget (requiredDelivery_eq_ok hd) hmarks rfl⟩

theorem appendEvent_eq_ok {event : DriverEvent} (h : s.appendEvent event now = .ok s') :
    s'.messages = s.messages ∧ s'.deliveries = s.deliveries ∧ Frame s s' := by
  unfold appendEvent at h
  rw [require_bind_eq_ok] at h
  obtain ⟨-, h⟩ := h
  rw [require_bind_eq_ok] at h
  obtain ⟨-, h⟩ := h
  rw [require_bind_eq_ok] at h
  obtain ⟨-, h⟩ := h
  rw [bind_eq_ok] at h
  obtain ⟨_, -, h⟩ := h
  rw [bind_eq_ok] at h
  obtain ⟨_, -, h⟩ := h
  split at h
  · rw [require_bind_eq_ok] at h
    obtain ⟨-, h⟩ := h
    obtain rfl := Except.ok.inj h
    exact ⟨rfl, rfl, .refl⟩
  · obtain rfl := Except.ok.inj h
    exact ⟨rfl, rfl, rfl, rfl, rfl⟩

/-- What an acknowledgement adds to an attempt. -/
def ClaudeAttempt.acknowledged (a : ClaudeAttempt) (now : Nat) : ClaudeAttempt :=
  { a with
    sentAtUnixMs := some (a.sentAtUnixMs.getD now)
    confirmedAtUnixMs := some now }

theorem confirm_eq_ok {ack : ClaudeAck} {eventId : String}
    (hd : s.deliveries.get ack.messageId = some d) (hm : s.messages.get ack.messageId = some m)
    (hf : m.state ≠ .failed) (h : s.confirm d a m ack eventId now = .ok s') :
    ∃ m', MovesTo m m' .confirmed ∧ m.state ≠ .confirmed ∧ Rewrites s s' ack.messageId m m' d
      { d with attempt := some (a.acknowledged now) } := by
  unfold confirm at h
  rw [require_bind_eq_ok] at h
  obtain ⟨hc, h⟩ := h
  rw [bind_eq_ok] at h
  obtain ⟨s1, hs1, h⟩ := h
  rw [bind_eq_ok] at h
  obtain ⟨⟨s2, r⟩, hs2, h⟩ := h
  rw [bind_eq_ok] at h
  obtain ⟨t, ht, h⟩ := h
  obtain rfl := ms_eq_ok ht
  have hid := id_of_message hm
  obtain ⟨m1, hmove1, hmarks1⟩ := markSent_eq_ok (hid.symm ▸ hm) hs1
  have hsent : m1.state = .sent := by
    rw [hmove1.state]
    split_ifs with hq
    · rfl
    · cases hs : m.state with
      | queued => exact absurd hs hq
      | sent => rfl
      | confirmed => exact absurd hs hc
      | failed => exact absurd hs hf
  have hm1 : s1.messages.get ack.messageId = some m1 := by
    rw [hmarks1.messages, if_pos hid.symm]
  obtain ⟨m2, hmove2, rfl⟩ := advanceClaude_eq_ok hm1 (by rw [hsent]; rfl) hs2
  obtain ⟨hmessages, hdeliveries, hframe⟩ := appendEvent_eq_ok h
  have hmarks2 := marks_put (s := s1) hmove2
  refine ⟨m2, hmove1.trans hmove2, hc, ?_, hm, hd, fun k => ?_, fun k => ?_⟩
  · exact hmarks1.toFrame.trans ⟨hframe.instances, hframe.launches, hframe.switches⟩
  · rw [hmessages]
    simp only
    rw [hmarks2.messages, hmarks1.messages, hmove1.id, hid]
    split_ifs <;> rfl
  · rw [hdeliveries]
    simp only
    rw [Table.get_put, hmarks1.deliveries]
    exact if_congr (by rw [← id_of_delivery hd]) rfl rfl

theorem acknowledge_eq_ok {ack : ClaudeAck} {eventId : String} {r : ClaudeAckResult}
    (h : s.acknowledge ack eventId now = .ok (s', r)) :
    ∃ m d a, d.attempt = some a ∧ d.instanceId = ack.instanceId ∧ a.deliveryId = ack.deliveryId ∧
      a.sessionId = ack.sessionId ∧ d.abandonedAtUnixMs = none ∧
      s.messages.get ack.messageId = some m ∧ s.deliveries.get ack.messageId = some d ∧
      (s' = s ∧ r = .alreadyConfirmed ∧ m.state = .confirmed ∨
        r = .confirmed ∧ a.confirmedAtUnixMs = none ∧ m.state ≠ .confirmed ∧ m.state ≠ .failed ∧
        ∃ m', MovesTo m m' .confirmed ∧ Rewrites s s' ack.messageId m m' d
          { d with attempt := some (a.acknowledged now) }) := by
  unfold acknowledge at h
  rw [bind_eq_ok] at h
  obtain ⟨d, hd, h⟩ := h
  rw [bind_eq_ok] at h
  obtain ⟨a, ha, h⟩ := h
  rw [require_bind_eq_ok] at h
  obtain ⟨⟨hinst, hdel, hsess, hlive⟩, h⟩ := h
  rw [bind_eq_ok] at h
  obtain ⟨m, hm, h⟩ := h
  rw [require_bind_eq_ok] at h
  obtain ⟨hf, h⟩ := h
  have hmget := requiredMessage_eq_ok hm
  have hdget := requiredDelivery_eq_ok hd
  refine ⟨m, d, a, okOr_eq_ok.mp ha, hinst, hdel, hsess, hlive, hmget, hdget, ?_⟩
  split at h
  · rw [require_bind_eq_ok] at h
    obtain ⟨hc, h⟩ := h
    obtain ⟨rfl, rfl⟩ := Prod.mk.inj (Except.ok.inj h)
    exact Or.inl ⟨rfl, rfl, hc⟩
  · obtain ⟨s1, hs1, he⟩ := map_eq_ok.mp h
    obtain ⟨rfl, rfl⟩ := Prod.mk.inj he
    obtain ⟨m', hmove, hc, hw⟩ := confirm_eq_ok hdget hmget hf hs1
    exact Or.inr ⟨rfl, ‹_›, hc, hf, m', hmove, hw⟩

theorem abandon_eq_ok {r : ClaudeDelivery} (h : s.abandon id reason now = .ok (s', r)) :
    s' = s ∨ ∃ m m' d, m.state ≠ .confirmed ∧ d.abandonedAtUnixMs = none ∧ MovesTo m m' .failed ∧
      Rewrites s s' id m m' d { d with
        abandonedAtUnixMs := some now
        abandonmentReason := some reason } := by
  unfold abandon at h
  rw [require_bind_eq_ok] at h
  obtain ⟨-, h⟩ := h
  rw [bind_eq_ok] at h
  obtain ⟨d, hd, h⟩ := h
  rw [bind_eq_ok] at h
  obtain ⟨m, hm, h⟩ := h
  rw [require_bind_eq_ok] at h
  obtain ⟨hc, h⟩ := h
  have hmget := requiredMessage_eq_ok hm
  split at h
  · exact Or.inl (Prod.mk.inj (Except.ok.inj h)).1.symm
  · rename_i hlive
    rw [bind_eq_ok] at h
    obtain ⟨s1, hs1, h⟩ := h
    rw [bind_eq_ok] at h
    obtain ⟨t, ht, h⟩ := h
    obtain rfl := ms_eq_ok ht
    obtain ⟨rfl, -⟩ := Prod.mk.inj (Except.ok.inj h)
    obtain ⟨m', hmove, hmarks⟩ := markFailed_eq_ok ((id_of_message hmget).symm ▸ hmget) hc hs1
    exact Or.inr ⟨m, m', d, hc, hlive, hmove,
      rewrites_put hmget (requiredDelivery_eq_ok hd) hmarks rfl⟩

theorem abandonUnknown_eq_ok (h : s.abandonUnknownClaude id reason now = .ok s') :
    s' = s ∨ ∃ m m' d, m.state ≠ .confirmed ∧ d.abandonedAtUnixMs = none ∧ MovesTo m m' .failed ∧
      Rewrites s s' id m m' d { d with
        abandonedAtUnixMs := some now
        abandonmentReason := some reason } := by
  unfold abandonUnknownClaude at h
  rw [bind_eq_ok] at h
  obtain ⟨d, -, h⟩ := h
  rw [bind_eq_ok] at h
  obtain ⟨m, -, h⟩ := h
  rw [require_bind_eq_ok] at h
  obtain ⟨-, h⟩ := h
  rw [bind_eq_ok] at h
  obtain ⟨⟨s1, r⟩, hs1, h⟩ := h
  obtain rfl := Except.ok.inj h
  exact abandon_eq_ok hs1

theorem release_eq_ok (h : s.releaseRefusedClaudeKey id delivery = .ok s') :
    ∃ m d a, d.attempt = some a ∧ a.deliveryId = delivery ∧ a.sentAtUnixMs = none ∧
      a.confirmedAtUnixMs = none ∧ d.abandonedAtUnixMs = none ∧ m.state = .queued ∧
      Rewrites s s' id m { m with attemptedAtUnixMs := none } d { d with attempt := none } := by
  unfold releaseRefusedClaudeKey at h
  rw [bind_eq_ok] at h
  obtain ⟨d, hd, h⟩ := h
  rw [bind_eq_ok] at h
  obtain ⟨m, hm, h⟩ := h
  rw [require_bind_eq_ok] at h
  obtain ⟨⟨hlive, hq, ha⟩, h⟩ := h
  obtain rfl := Except.ok.inj h
  have hmget := requiredMessage_eq_ok hm
  have hdget := requiredDelivery_eq_ok hd
  obtain ⟨a, hattempt, hcond⟩ := (Option.any_eq_true _ _).mp ha
  simp only [Bool.and_eq_true, decide_eq_true_eq, Option.isNone_iff_eq_none] at hcond
  obtain ⟨⟨hdel, hsent⟩, hconf⟩ := hcond
  refine ⟨m, d, a, hattempt, hdel, hsent, hconf, hlive, hq, ⟨rfl, rfl, rfl⟩, hmget, hdget,
    fun k => ?_, fun k => ?_⟩
  · rw [Table.get_put]
    exact if_congr (by rw [← id_of_message hmget]) rfl rfl
  · rw [Table.get_put]
    exact if_congr (by rw [← id_of_delivery hdget]) rfl rfl

theorem claimMessage_eq_ok {new : NewMessage} {c : Claim}
    (h : s.claimMessage new now = .ok (s', c)) :
    s' = s ∨ ∃ m : Message, m.state = .queued ∧ m.attemptedAtUnixMs = none ∧
      s.messages.get m.id = none ∧ s' = s.insertMessage m := by
  unfold claimMessage at h
  split at h
  · exact Or.inl (Prod.mk.inj (Except.ok.inj h)).1.symm
  · rename_i hnone
    rw [bind_eq_ok] at h
    obtain ⟨t, -, h⟩ := h
    obtain ⟨rfl, -⟩ := Prod.mk.inj (Except.ok.inj h)
    refine Or.inr ⟨_, ?_, ?_, ?_, rfl⟩
    · rfl
    · rfl
    · exact hnone

/-- A message is stored, with a delivery of its own when it is pushed. -/
theorem insertMessage_cases (s : Store) (m : Message) :
    (s.insertMessage m).messages = s.messages.put m ∧ Frame s (s.insertMessage m) ∧
      ((s.insertMessage m).deliveries = s.deliveries ∨
        (s.insertMessage m).deliveries = s.deliveries.put ⟨m.id, m.toInstance, none, none, none⟩) := by
  simp only [insertMessage]
  split
  · split_ifs
    · exact ⟨rfl, ⟨rfl, rfl, rfl⟩, Or.inr rfl⟩
    · exact ⟨rfl, ⟨rfl, rfl, rfl⟩, Or.inl rfl⟩
  · exact ⟨rfl, ⟨rfl, rfl, rfl⟩, Or.inl rfl⟩

theorem advance_eq_ok {next : DeliveryState} {turnId : Option String} {r : Option Message}
    (h : s.advance id next turnId now = .ok (s', r)) :
    s' = s ∨ s.deliveries.get id = none ∧ ∃ m m', s.messages.get id = some m ∧
      m.state.canTransitionTo next = true ∧ MovesTo m m' next ∧
      s' = { s with messages := s.messages.put m' } := by
  unfold advance at h
  rw [require_bind_eq_ok] at h
  obtain ⟨hnone, h⟩ := h
  cases hget : s.messages.get id with
  | none =>
    unfold advanceClaude at h
    rw [hget] at h
    exact Or.inl (Prod.mk.inj (Except.ok.inj h)).1.symm
  | some m =>
    by_cases hcan : m.state.canTransitionTo next = true
    · obtain ⟨m', hmove, rfl⟩ := advanceClaude_eq_ok hget hcan h
      exact Or.inr ⟨hnone, m, m', rfl, hcan, hmove, rfl⟩
    · unfold advanceClaude at h
      rw [hget] at h
      simp only [if_neg hcan] at h
      exact Or.inl (Prod.mk.inj (Except.ok.inj h)).1.symm

theorem frame_claimMessage {new : NewMessage} {c : Claim}
    (h : s.claimMessage new now = .ok (s', c)) : Frame s s' := by
  rcases claimMessage_eq_ok h with rfl | ⟨m, -, -, -, rfl⟩
  · exact .refl
  · exact (insertMessage_cases s m).2.1

theorem frame_advance {next : DeliveryState} {turnId : Option String} {r : Option Message}
    (h : s.advance id next turnId now = .ok (s', r)) : Frame s s' := by
  rcases advance_eq_ok h with rfl | ⟨-, m, m', -, -, -, rfl⟩
  · exact .refl
  · exact ⟨rfl, rfl, rfl⟩

end Agend.Runtime
