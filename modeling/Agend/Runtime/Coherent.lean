import Agend.Runtime.Programs
import Mathlib.Logic.Relation

/-! A message and its delivery stay in step, and its content is written once. -/
namespace Agend.Runtime

open Library Store

/-- A success that says something about an attempt. -/
def Operation.acts : Operation → Except String Reply → Bool
  | .reserve .., .ok (.reservation (.started _)) => true
  | .written .., .ok _ => true
  | .acknowledge .., .ok _ => true
  | .release .., .ok _ => true
  | _, _ => false

/-- What a call does to the messages and their deliveries. -/
inductive Turn (s : Store) : Operation → Store → Except String Reply → Prop
  | quiet {op : Operation} {s' : Store} {out : Except String Reply}
      (hm : s'.messages = s.messages) (hd : s'.deliveries = s.deliveries)
      (ha : op.acts out = false) : Turn s op s' out
  | inserted {op : Operation} {s' : Store} {out : Except String Reply} {m : Message}
      (hq : m.state = .queued) (hat : m.attemptedAtUnixMs = none)
      (hnone : s.messages.get m.id = none) (hm : s'.messages = s.messages.put m)
      (hd : s'.deliveries = s.deliveries ∨
        s'.deliveries = s.deliveries.put ⟨m.id, m.toInstance, none, none, none⟩)
      (ha : op.acts out = false) : Turn s op s' out
  | advanced {op : Operation} {s' : Store} {out : Except String Reply} {id : String}
      {m m' : Message} {next : DeliveryState} (hnone : s.deliveries.get id = none)
      (hget : s.messages.get id = some m) (hcan : m.state.canTransitionTo next = true)
      (hmove : MovesTo m m' next) (hm : s'.messages = s.messages.put m')
      (hd : s'.deliveries = s.deliveries) (ha : op.acts out = false) : Turn s op s' out
  | started {new : NewClaudeDelivery} {now : Nat} {s' : Store} {m : Message}
      {d d' : ClaudeDelivery} (hst : Startable s new m d)
      (he : d' = { d with attempt := some (new.attempt now) })
      (hw : Rewrites s s' new.messageId m { m with attemptedAtUnixMs := some now } d d') :
      Turn s (.reserve new now) s' (.ok (.reservation (.started d')))
  | written {id delivery : String} {now : Nat} {s' : Store} {r : Reply} {m m' : Message}
      {d d' : ClaudeDelivery} {a : ClaudeAttempt} (ha : d.attempt = some a)
      (hid : a.deliveryId = delivery) (hlive : d.abandonedAtUnixMs = none)
      (hf : m.state ≠ .failed)
      (hmove : MovesTo m m' (if m.state = .queued then .sent else m.state))
      (he : d' = { d with
        attempt := some { a with sentAtUnixMs := some (a.sentAtUnixMs.getD now) } })
      (hw : Rewrites s s' id m m' d d') : Turn s (.written id delivery now) s' (.ok r)
  | acknowledged {ack : ClaudeAck} {eventId : String} {now : Nat} {s' : Store}
      {m m' : Message} {d d' : ClaudeDelivery} {a : ClaudeAttempt} (ha : d.attempt = some a)
      (hinst : d.instanceId = ack.instanceId) (hid : a.deliveryId = ack.deliveryId)
      (hsession : a.sessionId = ack.sessionId) (hlive : d.abandonedAtUnixMs = none)
      (hno : a.confirmedAtUnixMs = none) (hc : m.state ≠ .confirmed) (hf : m.state ≠ .failed)
      (hmove : MovesTo m m' .confirmed) (he : d' = { d with attempt := some (a.acknowledged now) })
      (hw : Rewrites s s' ack.messageId m m' d d') :
      Turn s (.acknowledge ack eventId now) s' (.ok (.ack .confirmed))
  | repeated {ack : ClaudeAck} {eventId : String} {now : Nat} {r : Reply} {m : Message}
      (hget : s.messages.get ack.messageId = some m) (hc : m.state = .confirmed) :
      Turn s (.acknowledge ack eventId now) s (.ok r)
  | abandoned {op : Operation} {s' : Store} {out : Except String Reply} {id reason : String}
      {now : Nat} {m m' : Message} {d d' : ClaudeDelivery} (hc : m.state ≠ .confirmed)
      (hlive : d.abandonedAtUnixMs = none) (hmove : MovesTo m m' .failed)
      (he : d' = { d with
        abandonedAtUnixMs := some now
        abandonmentReason := some reason })
      (hw : Rewrites s s' id m m' d d') (ha : op.acts out = false) : Turn s op s' out
  | released {id delivery : String} {s' : Store} {m : Message} {d : ClaudeDelivery}
      {a : ClaudeAttempt} (ha : d.attempt = some a) (hid : a.deliveryId = delivery)
      (hsent : a.sentAtUnixMs = none) (hconfirmed : a.confirmedAtUnixMs = none)
      (hlive : d.abandonedAtUnixMs = none) (hq : m.state = .queued)
      (hw : Rewrites s s' id m { m with attemptedAtUnixMs := none } d { d with attempt := none }) :
      Turn s (.release id delivery) s' (.ok .unit)

variable {s s' : Store} {op : Operation} {out : Except String Reply}

theorem turn_of_step (hs : runtime.step s op s' out) : Turn s op s' out := by
  have hcall : s.call op = (s', out) := hs
  have hshift := shift_of_step hs
  unfold Store.call at hcall
  split at hcall
  · rename_i s1 reply hexec
    obtain ⟨rfl, rfl⟩ := Prod.mk.inj hcall
    cases op with
    | claimMessage new now =>
      obtain ⟨⟨s2, c⟩, h, he⟩ := map_eq_ok.mp hexec
      cases he
      rcases claimMessage_eq_ok h with rfl | ⟨m, hq, hat, hnone, rfl⟩
      · exact .quiet rfl rfl rfl
      · obtain ⟨hm, -, hd⟩ := insertMessage_cases s m
        exact .inserted hq hat hnone hm hd rfl
    | advance id next turnId now =>
      obtain ⟨⟨s2, r⟩, h, he⟩ := map_eq_ok.mp hexec
      cases he
      rcases advance_eq_ok h with rfl | ⟨hnone, m, m', hget, hcan, hmove, rfl⟩
      · exact .quiet rfl rfl rfl
      · exact .advanced hnone hget hcan hmove rfl rfl rfl
    | reserve new now =>
      obtain ⟨⟨s2, r⟩, h, he⟩ := map_eq_ok.mp hexec
      cases he
      rcases reserve_eq_ok h with ⟨rfl, hno⟩ | ⟨m, d, d', rfl, hst, he, hw⟩
      · refine .quiet rfl rfl ?_
        cases r with
        | started d => exact absurd rfl (hno d)
        | paused | existing => rfl
      · exact .started hst he hw
    | written id delivery now =>
      obtain ⟨⟨s2, r⟩, h, he⟩ := map_eq_ok.mp hexec
      cases he
      obtain ⟨m, m', d, d', a, ha, hid, hlive, hf, hmove, he, hw⟩ := written_eq_ok h
      exact .written ha hid hlive hf hmove he hw
    | acknowledge ack eventId now =>
      obtain ⟨⟨s2, r⟩, h, he⟩ := map_eq_ok.mp hexec
      cases he
      obtain ⟨m, d, a, ha, hinst, hid, hsession, hlive, hmget, hdget, hor⟩ := acknowledge_eq_ok h
      rcases hor with ⟨rfl, rfl, hc⟩ | ⟨rfl, hno, hc, hf, m', hmove, hw⟩
      · exact .repeated hmget hc
      · exact .acknowledged ha hinst hid hsession hlive hno hc hf hmove rfl hw
    | abandon id reason now =>
      obtain ⟨⟨s2, r⟩, h, he⟩ := map_eq_ok.mp hexec
      cases he
      rcases abandon_eq_ok h with rfl | ⟨m, m', d, hc, hlive, hmove, hw⟩
      · exact .quiet rfl rfl rfl
      · exact .abandoned hc hlive hmove rfl hw rfl
    | abandonUnknown id reason now =>
      obtain ⟨s2, h, he⟩ := map_eq_ok.mp hexec
      cases he
      rcases abandonUnknown_eq_ok h with rfl | ⟨m, m', d, hc, hlive, hmove, hw⟩
      · exact .quiet rfl rfl rfl
      · exact .abandoned hc hlive hmove rfl hw rfl
    | release message delivery =>
      obtain ⟨s2, h, he⟩ := map_eq_ok.mp hexec
      cases he
      obtain ⟨m, d, a, ha, hid, hsent, hconfirmed, hlive, hq, hw⟩ := release_eq_ok h
      exact .released ha hid hsent hconfirmed hlive hq hw
    | _ =>
      obtain ⟨hm, hd⟩ := hshift.deliveries_eq rfl
      exact .quiet hm hd rfl
  · obtain ⟨rfl, rfl⟩ := Prod.mk.inj hcall
    refine .quiet rfl rfl ?_
    cases op <;> rfl

/-- A message and its delivery say the same, as the checks of the tables demand. -/
structure Coherent (m : Message) (d : ClaudeDelivery) : Prop where
  instanceId : d.instanceId = m.toInstance
  attempted : d.attempt.isSome = m.attemptedAtUnixMs.isSome
  confirmed : m.state = .confirmed ↔
    ∃ a, d.attempt = some a ∧ a.confirmedAtUnixMs.isSome = true
  queued : m.state = .queued → ∀ a, d.attempt = some a → a.sentAtUnixMs = none
  sent : m.state = .sent ∨ m.state = .confirmed →
    ∃ a, d.attempt = some a ∧ a.sentAtUnixMs.isSome = true
  checked : ∀ a, d.attempt = some a → a.confirmedAtUnixMs.isSome = true →
    a.sentAtUnixMs.isSome = true
  failed : m.state = .failed ↔ d.abandonedAtUnixMs.isSome = true
  reason : d.abandonedAtUnixMs.isSome = d.abandonmentReason.isSome

def Store.Coherent (s : Store) : Prop :=
  ∀ id d, s.deliveries.get id = some d →
    ∃ m, s.messages.get id = some m ∧ Runtime.Coherent m d

theorem Coherent.started {m : Message} {d : ClaudeDelivery} {a : ClaudeAttempt} {now : Nat}
    (hc : Coherent m d) (hq : m.state = .queued) (hsent : a.sentAtUnixMs = none)
    (hno : a.confirmedAtUnixMs = none) :
    Coherent { m with attemptedAtUnixMs := some now } { d with attempt := some a } := by
  obtain ⟨h1, h2, h3, h4, h5, h6, h7, h8⟩ := hc
  constructor <;> grind

theorem Coherent.written {m m' : Message} {d : ClaudeDelivery} {a : ClaudeAttempt} {at_ : Nat}
    (hc : Coherent m d) (ha : d.attempt = some a) (hf : m.state ≠ .failed)
    (hmove : MovesTo m m' (if m.state = .queued then .sent else m.state)) :
    Coherent m' { d with attempt := some { a with sentAtUnixMs := some at_ } } := by
  obtain ⟨h1, h2, h3, h4, h5, h6, h7, h8⟩ := hc
  obtain ⟨-, hinst, hattempted, hstate⟩ := hmove
  constructor <;> grind

theorem Coherent.acknowledged {m m' : Message} {d : ClaudeDelivery} {a : ClaudeAttempt}
    {now : Nat} (hc : Coherent m d) (ha : d.attempt = some a) (hf : m.state ≠ .failed)
    (hmove : MovesTo m m' .confirmed) :
    Coherent m' { d with attempt := some (a.acknowledged now) } := by
  obtain ⟨h1, h2, h3, h4, h5, h6, h7, h8⟩ := hc
  obtain ⟨-, hinst, hattempted, hstate⟩ := hmove
  unfold ClaudeAttempt.acknowledged
  constructor <;> grind

theorem Coherent.abandoned {m m' : Message} {d : ClaudeDelivery} {now : Nat} {reason : String}
    (hc : Coherent m d) (hno : m.state ≠ .confirmed) (hmove : MovesTo m m' .failed) :
    Coherent m' { d with
      abandonedAtUnixMs := some now
      abandonmentReason := some reason } := by
  obtain ⟨h1, h2, h3, h4, h5, h6, h7, h8⟩ := hc
  obtain ⟨-, hinst, hattempted, hstate⟩ := hmove
  constructor <;> grind

theorem Coherent.released {m : Message} {d : ClaudeDelivery} (hc : Coherent m d)
    (hq : m.state = .queued) :
    Coherent { m with attemptedAtUnixMs := none } { d with attempt := none } := by
  obtain ⟨h1, h2, h3, h4, h5, h6, h7, h8⟩ := hc
  constructor <;> grind

/-- A rewritten pair that stays in step keeps all of them in step. -/
theorem Rewrites.coherent {id : String} {m m' : Message} {d d' : ClaudeDelivery}
    (hw : Rewrites s s' id m m' d d') (hs : s.Coherent)
    (hpair : Runtime.Coherent m d → Runtime.Coherent m' d') : s'.Coherent := by
  intro k d1 hget
  rw [hw.deliveries] at hget
  rw [hw.messages]
  split_ifs at hget ⊢ with hk
  · obtain ⟨m1, hm1, hc⟩ := hs id d hw.delivery
    rw [hw.message] at hm1
    obtain rfl := Option.some.inj hm1
    obtain rfl := Option.some.inj hget
    exact ⟨m', rfl, hpair hc⟩
  · exact hs k d1 hget

theorem coherent_step (hs : runtime.step s op s' out) (hc : s.Coherent) : s'.Coherent := by
  cases turn_of_step hs with
  | quiet hm hd =>
    intro id d hget
    rw [hd] at hget
    rw [hm]
    exact hc id d hget
  | @inserted _ _ _ m hq hat hnone hm hd =>
    intro id d hget
    rw [hm]
    have hold : ∀ d, s.deliveries.get id = some d →
        ∃ m1, (s.messages.put m).get id = some m1 ∧ Coherent m1 d := by
      intro d hd1
      obtain ⟨m1, hm1, hc1⟩ := hc id d hd1
      refine ⟨m1, ?_, hc1⟩
      rw [Table.get_put_of_ne, hm1]
      rintro rfl
      rw [hnone] at hm1
      cases hm1
    rcases hd with hd | hd
    · exact hold d (hd ▸ hget)
    · rw [hd, Table.get_put] at hget
      split_ifs at hget with hk
      · simp only at hk
        subst hk
        obtain rfl := Option.some.inj hget
        refine ⟨m, Table.get_put_self, ?_⟩
        constructor <;> simp [hq, hat]
      · exact hold d hget
  | @advanced _ _ _ id m m' next hnone hget hcan hmove hm hd =>
    intro k d hk
    rw [hd] at hk
    obtain ⟨m1, hm1, hc1⟩ := hc k d hk
    refine ⟨m1, ?_, hc1⟩
    rw [hm, Table.get_put_of_ne, hm1]
    rintro rfl
    rw [hmove.id, id_of_message hget, hnone] at hk
    cases hk
  | started hst he hw =>
    subst he
    obtain ⟨-, -, hq, -, -, -⟩ := ClaudeDelivery.mayStart_iff.mp hst.mayStart
    exact hw.coherent hc fun h => h.started hq rfl rfl
  | written ha hid hlive hf hmove he hw =>
    subst he
    exact hw.coherent hc fun h => h.written ha hf hmove
  | acknowledged ha hinst hid hsession hlive hno hstate hf hmove he hw =>
    subst he
    exact hw.coherent hc fun h => h.acknowledged ha hf hmove
  | repeated => exact hc
  | abandoned hno hlive hmove he hw =>
    subst he
    exact hw.coherent hc fun h => h.abandoned hno hmove
  | released ha hid hsent hconfirmed hlive hq hw =>
    exact hw.coherent hc fun h => h.released hq

theorem coherent_of_reachable (hr : runtime.Reachable s) : s.Coherent := by
  refine hr.invariant ?_ fun _ _ _ _ hc hs => coherent_step hs hc
  rintro _ rfl id d hget
  cases hget

/-- Moves that the states of a message allow, one after another. -/
def DeliveryState.Reaches : DeliveryState → DeliveryState → Prop :=
  Relation.ReflTransGen fun a b => a.canTransitionTo b = true

theorem DeliveryState.Reaches.ne_queued {a b : DeliveryState} (h : a.Reaches b)
    (ha : a ≠ .queued) : b ≠ .queued := by
  induction h with
  | refl => exact ha
  | @tail b c _ hstep _ =>
    rintro rfl
    cases b <;> cases hstep

theorem reaches_sent {a : DeliveryState} :
    a.Reaches (if a = .queued then .sent else a) := by
  split_ifs with h
  · subst h
    exact .single rfl
  · exact .refl

theorem reaches_confirmed {a : DeliveryState} (hf : a ≠ .failed) : a.Reaches .confirmed := by
  cases a with
  | queued => exact .head (b := .sent) rfl (.single rfl)
  | sent => exact .single rfl
  | confirmed => exact .refl
  | failed => exact absurd rfl hf

theorem reaches_failed {a : DeliveryState} (hc : a ≠ .confirmed) : a.Reaches .failed := by
  cases a with
  | queued | sent => exact .single rfl
  | confirmed => exact absurd rfl hc
  | failed => exact .refl

theorem Rewrites.reaches {id k : String} {m m' m1 : Message} {d d' : ClaudeDelivery}
    (hw : Rewrites s s' id m m' d d') (hm : m.state.Reaches m'.state)
    (hget : s.messages.get k = some m1) :
    ∃ m2, s'.messages.get k = some m2 ∧ m1.state.Reaches m2.state := by
  rw [hw.messages]
  split_ifs with hk
  · rw [hk, hw.message] at hget
    obtain rfl := Option.some.inj hget
    exact ⟨m', rfl, hm⟩
  · exact ⟨m1, hget, .refl⟩

/-- A message stays, and moves only as its states allow. -/
theorem reaches_step (hs : runtime.step s op s' out) {k : String} {m1 : Message}
    (hget : s.messages.get k = some m1) :
    ∃ m2, s'.messages.get k = some m2 ∧ m1.state.Reaches m2.state := by
  cases turn_of_step hs with
  | quiet hm hd =>
    rw [hm]
    exact ⟨m1, hget, .refl⟩
  | @inserted _ _ _ m hq hat hnone hm hd =>
    rw [hm]
    refine ⟨m1, ?_, .refl⟩
    rw [Table.get_put_of_ne, hget]
    rintro rfl
    rw [hnone] at hget
    cases hget
  | @advanced _ _ _ id m m' next hnone hmget hcan hmove hm hd =>
    rw [hm, Table.get_put]
    split_ifs with hk
    · rw [hk, hmove.id, id_of_message hmget, hmget] at hget
      obtain rfl := Option.some.inj hget
      exact ⟨m', rfl, hmove.state ▸ .single hcan⟩
    · exact ⟨m1, hget, .refl⟩
  | started hst he hw => exact hw.reaches .refl hget
  | written ha hid hlive hf hmove he hw =>
    exact hw.reaches (hmove.state ▸ reaches_sent) hget
  | acknowledged ha hinst hid hsession hlive hno hstate hf hmove he hw =>
    exact hw.reaches (hmove.state ▸ reaches_confirmed hf) hget
  | repeated => exact ⟨m1, hget, .refl⟩
  | abandoned hno hlive hmove he hw =>
    exact hw.reaches (hmove.state ▸ reaches_failed hno) hget
  | released ha hid hsent hconfirmed hlive hq hw => exact hw.reaches .refl hget

section Runs

/-- One call with the tables around it. -/
abbrev Call := Transition Store Operation (Except String Reply)

variable {message delivery : String} {h : List Call} {t : Call}

/-- A reservation permits the caller to write the content. -/
def Started (message delivery : String) (t : Call) : Prop :=
  ∃ new now d, t.event = .reserve new now ∧ t.output = .ok (.reservation (.started d)) ∧
    new.messageId = message ∧ new.deliveryId = delivery

def Released (message delivery : String) (t : Call) : Prop :=
  t.event = .release message delivery ∧ t.output = .ok .unit

def Written (message delivery : String) (t : Call) : Prop :=
  ∃ now r, t.event = .written message delivery now ∧ t.output = .ok r

def Acknowledged (message delivery : String) (t : Call) : Prop :=
  ∃ ack eventId now r, t.event = .acknowledge ack eventId now ∧ t.output = .ok r ∧
    ack.messageId = message ∧ ack.deliveryId = delivery

/-- The stored attempt of a message. -/
def Store.Attempts (s : Store) (message delivery : String) : Prop :=
  ∃ d a, s.deliveries.get message = some d ∧ d.attempt = some a ∧ a.deliveryId = delivery

/-- What a started reservation was granted on. -/
theorem started_cases (hs : runtime.step s op s' out)
    (ht : Started message delivery ⟨s, op, s', out⟩) :
    ∃ new now m d, op = .reserve new now ∧ new.messageId = message ∧ new.deliveryId = delivery ∧
      Startable s new m d ∧ s.deliveries.get message = some d ∧ s'.Attempts message delivery := by
  obtain ⟨new, now, d, rfl, rfl, rfl, rfl⟩ := ht
  cases turn_of_step hs with
  | quiet hm hd ha => cases ha
  | inserted hq hat hnone hm hd ha => cases ha
  | advanced hnone hget hcan hmove hm hd ha => cases ha
  | abandoned hc hlive hmove he hw ha => cases ha
  | @started _ _ _ m d' _ hst he hw =>
    refine ⟨new, now, m, d', rfl, rfl, rfl, hst, hw.delivery, d, new.attempt now, ?_, ?_, rfl⟩
    · rw [hw.deliveries, if_pos rfl]
    · rw [he]

/-- An attempt stays until it is released. -/
theorem attempts_step (hc : s.Coherent) (hs : runtime.step s op s' out)
    (ha : s.Attempts message delivery) :
    s'.Attempts message delivery ∨ Released message delivery ⟨s, op, s', out⟩ := by
  obtain ⟨d, a, hget, hattempt, hid⟩ := ha
  have hkeep : ∀ {id m m' d1 d1'}, Rewrites s s' id m m' d1 d1' →
      (∀ a, d1.attempt = some a →
        ∃ a', d1'.attempt = some a' ∧ a'.deliveryId = a.deliveryId) →
      s'.Attempts message delivery := by
    intro id m m' d1 d1' hw hsame
    by_cases hk : message = id
    · have hd1 := hw.delivery
      rw [← hk, hget] at hd1
      obtain ⟨a', ha', hid'⟩ := hsame a (Option.some.inj hd1 ▸ hattempt)
      exact ⟨d1', a', by rw [hw.deliveries, if_pos hk], ha', hid'.trans hid⟩
    · exact ⟨d, a, by rw [hw.deliveries, if_neg hk, hget], hattempt, hid⟩
  cases turn_of_step hs with
  | quiet hm hd => exact Or.inl ⟨d, a, hd ▸ hget, hattempt, hid⟩
  | @inserted _ _ _ m hq hat hnone hm hd =>
    refine Or.inl ⟨d, a, ?_, hattempt, hid⟩
    rcases hd with hd | hd
    · rw [hd, hget]
    · rw [hd, Table.get_put_of_ne, hget]
      rintro rfl
      obtain ⟨m1, hm1, -⟩ := hc m.id d hget
      rw [hnone] at hm1
      cases hm1
  | advanced hnone hmget hcan hmove hm hd => exact Or.inl ⟨d, a, hd ▸ hget, hattempt, hid⟩
  | started hst he hw =>
    obtain ⟨-, -, -, -, hnone, -⟩ := ClaudeDelivery.mayStart_iff.mp hst.mayStart
    refine Or.inl (hkeep hw fun a ha => ?_)
    rw [hnone] at ha
    cases ha
  | written ha hdel hlive hf hmove he hw =>
    refine Or.inl (hkeep hw fun a1 ha1 => ⟨_, by rw [he], ?_⟩)
    rw [ha] at ha1
    rw [Option.some.inj ha1]
  | acknowledged ha hinst hdel hsession hlive hno hstate hf hmove he hw =>
    refine Or.inl (hkeep hw fun a1 ha1 => ⟨_, by rw [he], ?_⟩)
    rw [ha] at ha1
    rw [← Option.some.inj ha1]
    rfl
  | repeated => exact Or.inl ⟨d, a, hget, hattempt, hid⟩
  | abandoned hno hlive hmove he hw =>
    refine Or.inl (hkeep hw fun a1 ha1 => ⟨a1, by rw [he]; exact ha1, rfl⟩)
  | @released id delivery1 _ m d1 a1 ha hdel hsent hconfirmed hlive hq hw =>
    by_cases hk : message = id
    · subst hk
      have hd1 := hw.delivery
      rw [hget] at hd1
      rw [Option.some.inj hd1, ha] at hattempt
      rw [← Option.some.inj hattempt, hdel] at hid
      subst hid
      exact Or.inr ⟨rfl, rfl⟩
    · exact Or.inl ⟨d, a, by rw [hw.deliveries, if_neg hk, hget], hattempt, hid⟩

/-- The message has left the queue. -/
def Store.Left (s : Store) (message : String) : Prop :=
  ∃ m, s.messages.get message = some m ∧ m.state ≠ .queued

theorem Store.Left.step (hs : runtime.step s op s' out) (hl : s.Left message) : s'.Left message := by
  obtain ⟨m, hget, hq⟩ := hl
  obtain ⟨m', hget', hreach⟩ := reaches_step hs hget
  exact ⟨m', hget', hreach.ne_queued hq⟩

/-- A receipt takes its message off the queue. -/
theorem left_of_receipt (hs : runtime.step s op s' out)
    (ht : Written message delivery ⟨s, op, s', out⟩ ∨
      Acknowledged message delivery ⟨s, op, s', out⟩) : s'.Left message := by
  rcases ht with ⟨now, r, rfl, rfl⟩ | ⟨ack, eventId, now, r, rfl, rfl, rfl, rfl⟩
  · cases turn_of_step hs with
    | quiet hm hd ha => cases ha
    | inserted hq hat hnone hm hd ha => cases ha
    | advanced hnone hget hcan hmove hm hd ha => cases ha
    | abandoned hc hlive hmove he hw ha => cases ha
    | @written _ _ _ _ _ m m' d d' a ha hid hlive hf hmove he hw =>
      refine ⟨m', by rw [hw.messages, if_pos rfl], ?_⟩
      rw [hmove.state]
      split_ifs with hq
      · exact nofun
      · exact hq
  · cases turn_of_step hs with
    | quiet hm hd ha => cases ha
    | inserted hq hat hnone hm hd ha => cases ha
    | advanced hnone hget hcan hmove hm hd ha => cases ha
    | abandoned hc hlive hmove he hw ha => cases ha
    | @acknowledged _ _ _ _ m m' d d' a ha hinst hid hsession hlive hno hstate hf hmove he hw =>
      refine ⟨m', by rw [hw.messages, if_pos rfl], ?_⟩
      rw [hmove.state]
      exact nofun
    | repeated hget hc =>
      refine ⟨_, hget, ?_⟩
      rw [hc]
      exact nofun

theorem not_released_of_left (hs : runtime.step s op s' out) (hl : s.Left message) :
    ¬ Released message delivery ⟨s, op, s', out⟩ := by
  rintro ⟨rfl, rfl⟩
  obtain ⟨m, hget, hq⟩ := hl
  cases turn_of_step hs with
  | quiet hm hd ha => cases ha
  | inserted hq hat hnone hm hd ha => cases ha
  | advanced hnone hget hcan hmove hm hd ha => cases ha
  | abandoned hc hlive hmove he hw ha => cases ha
  | released ha hid hsent hconfirmed hlive hqueued hw =>
    have hm := hw.message
    rw [hget] at hm
    exact hq (Option.some.inj hm ▸ hqueued)

/-- The acknowledgement that set a receipt names the delivery as it is stored. -/
def ConfirmedBy (message : String) (d : ClaudeDelivery) (a : ClaudeAttempt) (t : Call) : Prop :=
  ∃ ack eventId now, t.event = .acknowledge ack eventId now ∧ t.output = .ok (.ack .confirmed) ∧
    ack.messageId = message ∧ ack.instanceId = d.instanceId ∧ ack.deliveryId = a.deliveryId ∧
    ack.sessionId = a.sessionId ∧ a.confirmedAtUnixMs = some now

/-- Every receipt was set by its acknowledgement. -/
theorem confirmedBy_of_run (hr : runtime.Run h s) :
    ∀ message d a, s.deliveries.get message = some d → d.attempt = some a →
      a.confirmedAtUnixMs.isSome = true → ∃ t ∈ h, ConfirmedBy message d a t := by
  refine Machine.Run.invariant (P := fun h s => ∀ message d a, s.deliveries.get message = some d →
    d.attempt = some a → a.confirmedAtUnixMs.isSome = true →
      ∃ t ∈ h, ConfirmedBy message d a t) ?_ ?_ hr
  · rintro _ rfl message d a hget
    cases hget
  · intro h s op s' out hr ih hs message d' a' hget' hattempt' hconf
    -- a receipt that was there before
    have hold : ∀ d a, s.deliveries.get message = some d → d.attempt = some a →
        d.instanceId = d'.instanceId → a.deliveryId = a'.deliveryId → a.sessionId = a'.sessionId →
        a.confirmedAtUnixMs = a'.confirmedAtUnixMs →
        ∃ t ∈ (⟨s, op, s', out⟩ :: h : List Call), ConfirmedBy message d' a' t := by
      intro d a hget hattempt hinst hid hsession hat
      obtain ⟨t, ht, ack, eventId, now, h1, h2, h3, h4, h5, h6, h7⟩ :=
        ih message d a hget hattempt (hat ▸ hconf)
      exact ⟨t, List.mem_cons_of_mem _ ht, ack, eventId, now, h1, h2, h3, h4.trans hinst,
        h5.trans hid, h6.trans hsession, hat ▸ h7⟩
    have hsame : s'.deliveries.get message = s.deliveries.get message →
        ∃ t ∈ (⟨s, op, s', out⟩ :: h : List Call), ConfirmedBy message d' a' t := by
      intro he
      exact hold d' a' (he ▸ hget') hattempt' rfl rfl rfl rfl
    -- a pair that was rewritten with the same receipt
    have hpair : ∀ {id m m' d1 d1'}, Rewrites s s' id m m' d1 d1' →
        (∀ a1', d1'.attempt = some a1' → a1'.confirmedAtUnixMs.isSome = true →
          ∃ a1, d1.attempt = some a1 ∧ d1.instanceId = d1'.instanceId ∧
            a1.deliveryId = a1'.deliveryId ∧ a1.sessionId = a1'.sessionId ∧
            a1.confirmedAtUnixMs = a1'.confirmedAtUnixMs) →
        ∃ t ∈ (⟨s, op, s', out⟩ :: h : List Call), ConfirmedBy message d' a' t := by
      intro id m m' d1 d1' hw hkeep
      have hg := hw.deliveries message
      split_ifs at hg with hk
      · rw [hget'] at hg
        obtain rfl := Option.some.inj hg
        obtain ⟨a1, ha1, h1, h2, h3, h4⟩ := hkeep a' hattempt' hconf
        exact hold d1 a1 (hk ▸ hw.delivery) ha1 h1 h2 h3 h4
      · exact hsame hg
    cases turn_of_step hs with
    | quiet hm hd => exact hsame (by rw [hd])
    | inserted hq hat hnone hm hd =>
      rcases hd with hd | hd
      · exact hsame (by rw [hd])
      · rw [hd, Table.get_put] at hget'
        split_ifs at hget' with hk
        · rw [← Option.some.inj hget'] at hattempt'
          cases hattempt'
        · exact hsame (by rw [hd, Table.get_put_of_ne hk])
    | advanced hnone hget hcan hmove hm hd => exact hsame (by rw [hd])
    | started hst he hw =>
      refine hpair hw fun a1 ha1 hc1 => ?_
      rw [he] at ha1
      rw [← Option.some.inj ha1] at hc1
      cases hc1
    | written ha hid hlive hf hmove he hw =>
      refine hpair hw fun a1 ha1 hc1 => ?_
      rw [he] at ha1 ⊢
      rw [← Option.some.inj ha1]
      exact ⟨_, ha, rfl, rfl, rfl, rfl⟩
    | @acknowledged ack eventId now _ m m' d d1' a ha hinst hid hsession hlive hno hstate hf hmove
        he hw =>
      have hg := hw.deliveries message
      split_ifs at hg with hk
      · rw [hget'] at hg
        obtain rfl := Option.some.inj hg
        rw [he] at hattempt'
        rw [← Option.some.inj hattempt', he]
        exact ⟨_, List.mem_cons_self, ack, eventId, now, rfl, rfl, hk.symm, hinst.symm, hid.symm,
          hsession.symm, rfl⟩
      · exact hsame hg
    | repeated => exact hsame rfl
    | abandoned hno hlive hmove he hw =>
      refine hpair hw fun a1 ha1 hc1 => ?_
      rw [he] at ha1 ⊢
      exact ⟨a1, ha1, rfl, rfl, rfl, rfl⟩
    | released ha hid hsent hconfirmed hlive hq hw =>
      refine hpair hw fun a1 ha1 hc1 => ?_
      cases ha1

/-- Content is written once for each attempt: between two reservations that start, the first one's
key is released, which no receipt allows any more; a reservation starts only on an agent that pushes
in that session, outside a switch and for a message without an attempt; and a message moves only
forward, in step with its delivery, confirmed by nothing but its own acknowledgement. -/
theorem claude_delivery_at_most_once (hr : runtime.Run h s) :
    (∀ newer t' mid t older message delivery delivery', h = newer ++ t' :: (mid ++ t :: older) →
      Started message delivery t → Started message delivery' t' →
      ∃ u ∈ mid, Released message delivery u) ∧
    (∀ message delivery, h.Pairwise fun later earlier =>
      Written message delivery earlier ∨ Acknowledged message delivery earlier →
        ¬ Released message delivery later) ∧
    (∀ t ∈ h, ∀ message delivery, Started message delivery t →
      ∃ new now d target, t.event = .reserve new now ∧ new.messageId = message ∧
        t.before.deliveries.get message = some d ∧ d.attempt = none ∧
        d.abandonedAtUnixMs = none ∧ d.instanceId = new.instanceId ∧
        t.before.instances.get new.instanceId = some target ∧ target.pushes new.sessionId ∧
        ∀ record, t.before.switches.get new.instanceId = some record →
          record.phase.pending = false) ∧
    (∀ newer t older message m, h = newer ++ t :: older → t.before.messages.get message = some m →
      ∃ m', s.messages.get message = some m' ∧ m.state.Reaches m'.state) ∧
    (∀ message d, s.deliveries.get message = some d →
      ∃ m, s.messages.get message = some m ∧ Coherent m d ∧
        ∀ a, d.attempt = some a → a.confirmedAtUnixMs.isSome = true →
          ∃ t ∈ h, ConfirmedBy message d a t) := by
  refine ⟨?_, fun message delivery => ?_, ?_, ?_, ?_⟩
  · rintro newer t' mid t older message delivery delivery' rfl ht ht'
    obtain ⟨hmid, hs'⟩ := hr.split
    obtain ⟨holder, hs⟩ := hmid.split
    obtain ⟨-, -, -, -, -, -, -, -, -, hattempts⟩ := started_cases hs ht
    rcases hmid.unless (D := fun s => s.Attempts message delivery)
      (E := Released message delivery) (fun _ _ _ _ hreach hs hD =>
        attempts_step (coherent_of_reachable hreach) hs hD) hattempts with ⟨d, a, hget, ha, -⟩ | hu
    · obtain ⟨new, now, m, d', -, -, -, hst, hget', -⟩ := started_cases hs' ht'
      obtain ⟨-, -, -, -, hnone, -⟩ := ClaudeDelivery.mayStart_iff.mp hst.mayStart
      rw [hget] at hget'
      rw [← Option.some.inj hget', ha] at hnone
      cases hnone
    · exact hu
  · exact hr.never_after (D := fun s => s.Left message)
      (fun _ _ _ _ _ hs ht => left_of_receipt hs ht) (fun _ _ _ _ _ hs hD => hD.step hs)
      fun _ _ _ _ _ hs hD => not_released_of_left hs hD
  · intro t ht message delivery hstarted
    obtain ⟨-, hs⟩ := hr.of_mem t ht
    obtain ⟨new, now, m, d, he, hid, -, hst, hget, -⟩ := started_cases hs hstarted
    obtain ⟨target, htarget, hpushes⟩ := hst.pushes
    obtain ⟨-, -, -, -, hnone, hlive⟩ := ClaudeDelivery.mayStart_iff.mp hst.mayStart
    exact ⟨new, now, d, target, he, hid, hget, hnone, hlive, hst.instanceId, htarget, hpushes,
      hst.settled⟩
  · rintro newer t older message m rfl hget
    obtain ⟨-, hs⟩ := hr.split
    obtain ⟨m1, hget1, hreach1⟩ := reaches_step hs hget
    exact hr.since (D := fun s => ∃ m', s.messages.get message = some m' ∧
      m.state.Reaches m'.state) (by
        rintro s e s' o - hs ⟨m2, hget2, hreach2⟩
        obtain ⟨m3, hget3, hreach3⟩ := reaches_step hs hget2
        exact ⟨m3, hget3, hreach2.trans hreach3⟩) ⟨m1, hget1, hreach1⟩
  · intro message d hget
    obtain ⟨m, hm, hc⟩ := coherent_of_reachable hr.reachable message d hget
    exact ⟨m, hm, hc, fun a ha hconf => confirmedBy_of_run hr message d a hget ha hconf⟩

end Runs

/-- A message is reserved, its refused key released, and reserved again until acknowledged. -/
theorem claude_delivery_at_most_once_acknowledged :
    let session := "11111111-1111-4111-8111-111111111111"
    let first : NewClaudeDelivery :=
      ⟨"m", "22222222-2222-4222-8222-222222222222", "c", session, .channel⟩
    let second : NewClaudeDelivery :=
      { first with deliveryId := "33333333-3333-4333-8333-333333333333" }
    let played := Machine.play (fun s op => some (Store.call s op)) [] .empty [
      .addInstance ⟨"c", .claude, "/bin/a", [], "/tmp", some session, .running, true, none, false,
        "push"⟩,
      .claimMessage ⟨"m", "operator", "c", none, "body", .queue⟩ 0,
      .reserve first 1, .release "m" first.deliveryId, .reserve second 2,
      .written "m" second.deliveryId 3,
      .acknowledge ⟨"m", second.deliveryId, "c", session⟩
        "44444444-4444-4444-8444-444444444444" 4]
    (played.2.messages.get "m").map (·.state) = some .confirmed ∧
      ∀ message delivery, played.1.Pairwise fun later earlier =>
        Written message delivery earlier ∨ Acknowledged message delivery earlier →
          ¬ Released message delivery later := by
  exact ⟨by decide +kernel, (claude_delivery_at_most_once
    (.play (fun _ _ _ _ => Option.some.inj) (.start rfl))).2.1⟩

end Agend.Runtime
