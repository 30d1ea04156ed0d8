import Agend.Runtime.OpenCode

/-! A message is written into an OpenCode session at most once, and its receipt is of that
attempt. -/
namespace Agend.Runtime

open Library

/-- A row of the log that tells of the end of the message. -/
def OpenCodeEvent.about (e : OpenCodeEvent) (state : DeliveryState) (id : String) : Bool :=
  match state, e.payload with
  | .confirmed, .confirmed other => other = id
  | .failed, .abandoned other _ => other = id
  | _, _ => false

/-- One message is rewritten, the others stay. -/
structure Rewritten (s s' : OpenCode) (id : String) (m m' : Message) : Prop where
  before : s.base.messages.get id = some m
  after : ∀ k, s'.base.messages.get k = if k = id then some m' else s.base.messages.get k

/-- What a call does to the messages, their attempts and the log. -/
inductive Effect (s : OpenCode) : OpenCodeCall → OpenCode → Except String OpenCodeReply → Prop
  | still {c : OpenCodeCall} {s' : OpenCode} {o : Except String OpenCodeReply}
      (hm : s'.base.messages = s.base.messages) (ha : s'.attempts = s.attempts) (hl : s'.log = s.log)
      (ho : o ≠ .ok (.bool true)) : Effect s c s' o
  | inserted {c : OpenCodeCall} {s' : OpenCode} {o : Except String OpenCodeReply} {m : Message}
      (hnone : s.base.messages.get m.id = none) (hstate : m.state = .queued)
      (hattempt : m.attemptedAtUnixMs = none) (hm : s'.base.messages = s.base.messages.put m)
      (ha : s'.attempts = s.attempts) (hl : s'.log = s.log) (ho : o ≠ .ok (.bool true)) :
      Effect s c s' o
  | begun {id instanceId session backendId : String} {now : Nat} {s' : OpenCode} {m m' : Message}
      {i : Instance} (hr : Rewritten s s' id m m') (hto : m.toInstance = instanceId)
      (hstate : m.state = .queued) (hattempt : m.attemptedAtUnixMs = none)
      (hi : s.base.instances.get instanceId = some i) (hosts : i.hosts session)
      (hpaused : s.base.deliveryPaused instanceId = .ok false) (hnone : s.attempts.get id = none)
      (hstate' : m'.state = .queued) (hattempt' : m'.attemptedAtUnixMs = some now)
      (hturn : m'.turnId = some (reference session backendId))
      (ha : s'.attempts = s.attempts.put ⟨id, session, backendId⟩) (hl : s'.log = s.log) :
      Effect s (.begin_ id instanceId session backendId now) s' (.ok (.bool true))
  | sent {id session backendId : String} {now : Nat} {s' : OpenCode} {m m' : Message}
      (hr : Rewritten s s' id m m') (hstate : m.state = .queued)
      (hattempt : attemptIs m session backendId = true) (hstate' : m'.state = .sent)
      (hattempt' : m'.attemptedAtUnixMs = m.attemptedAtUnixMs) (hturn : m'.turnId = m.turnId)
      (ha : s'.attempts = s.attempts) (hl : s'.log = s.log) :
      Effect s (.accepted id session backendId now) s' (.ok .unit)
  | confirmed {id session backendId : String} {now : Nat} {s' : OpenCode} {m m' : Message}
      {o : Except String OpenCodeReply} {e : OpenCodeEvent}
      (hr : Rewritten s s' id m m') (hstate : m.state = .queued ∨ m.state = .sent)
      (hattempt : attemptIs m session backendId = true) (hstate' : m'.state = .confirmed)
      (hattempt' : m'.attemptedAtUnixMs = m.attemptedAtUnixMs) (hturn : m'.turnId = m.turnId)
      (ha : s'.attempts = s.attempts) (hl : s'.log = e :: s.log) (he : e.payload = .confirmed id)
      (hnow : e.ingestedAtUnixMs = m'.updatedAtUnixMs) (ho : o ≠ .ok (.bool true)) :
      Effect s (.confirm id session backendId now) s' o
  | abandoned {id reason : String} {now : Nat} {s' : OpenCode} {m m' : Message} {e : OpenCodeEvent}
      (hr : Rewritten s s' id m m') (hstate : m.state = .queued ∨ m.state = .sent)
      (hattempt : m.attemptedAtUnixMs.isSome = true) (hstate' : m'.state = .failed)
      (hattempt' : m'.attemptedAtUnixMs = m.attemptedAtUnixMs) (hturn : m'.turnId = m.turnId)
      (ha : s'.attempts = s.attempts) (hl : s'.log = e :: s.log)
      (he : e.payload = .abandoned id reason) (hnow : e.ingestedAtUnixMs = m'.updatedAtUnixMs) :
      Effect s (.abandon id reason now) s' (.ok .unit)
  | completed {instanceId session : String} {rows : List (String × Option String × Bool)} {now : Nat}
      {s' : OpenCode} {news : List OpenCodeEvent} (hm : s'.base.messages = s.base.messages)
      (ha : s'.attempts = s.attempts) (hl : s'.log = news ++ s.log)
      (hnews : ∀ e ∈ news, ∀ state id, e.about state id = false) :
      Effect s (.completed instanceId session rows now) s' (.ok .unit)
  | pruned {now : Nat} : Effect s (.prune now) (s.prune now) (.ok .unit)

variable {s s' : OpenCode} {c : OpenCodeCall} {o : Except String OpenCodeReply}
  {id instanceId session backendId reason error : String} {now : Nat} {m m' : Message}
  {state next : DeliveryState} {e : OpenCodeEvent} {turnId : Option String}

theorem attemptIs_iff : attemptIs m session backendId = true ↔
    m.attemptedAtUnixMs.isSome = true ∧ m.turnId = some (reference session backendId) := by
  unfold attemptIs
  rw [Bool.and_eq_true, decide_eq_true_iff]

/-- `messages::advance` as a whole. -/
theorem storeAdvance_eq_ok {t t' : Store} {r : Option Message}
    (h : t.advance id next turnId now = .ok (t', r)) : t' = t ∧ r = none ∨
      ∃ m m', t.messages.get id = some m ∧ m.state.canTransitionTo next = true ∧ r = some m' ∧
        m' = { m with state := next, turnId := turnId.or m.turnId, updatedAtUnixMs := now } ∧
        t' = { t with messages := t.messages.put m' } := by
  replace h := (require_bind_eq_ok.mp h).2
  unfold Store.advanceClaude at h
  cases hget : t.messages.get id with
  | none =>
    rw [hget] at h
    obtain ⟨rfl, rfl⟩ := Prod.mk.inj (Except.ok.inj h)
    exact Or.inl ⟨rfl, rfl⟩
  | some m =>
    rw [hget] at h
    dsimp only at h
    split_ifs at h with hcan
    · rw [bind_eq_ok] at h
      obtain ⟨now', hnow, h⟩ := h
      obtain rfl := ms_eq_ok hnow
      obtain ⟨rfl, rfl⟩ := Prod.mk.inj (Except.ok.inj h)
      exact Or.inr ⟨m, _, rfl, hcan, rfl, rfl, rfl⟩
    · obtain ⟨rfl, rfl⟩ := Prod.mk.inj (Except.ok.inj h)
      exact Or.inl ⟨rfl, rfl⟩

theorem rewritten_put {t : OpenCode} (hget : s.base.messages.get id = some m) (hid : m'.id = m.id)
    (ht : t.base.messages = s.base.messages.put m') : Rewritten s t id m m' := by
  refine ⟨hget, fun k => ?_⟩
  rw [ht, Table.get_put, hid, Store.id_of_message hget]

theorem advance_eq_some (h : s.advance id next turnId now error = .ok (s', m')) :
    ∃ m, s.base.messages.get id = some m ∧ m.state.canTransitionTo next = true ∧
      m' = { m with state := next, turnId := turnId.or m.turnId, updatedAtUnixMs := now } ∧
      s' = { s with base := { s.base with messages := s.base.messages.put m' } } := by
  obtain ⟨⟨t', r⟩, hadv, h⟩ := bind_eq_ok.mp h
  obtain ⟨m1, hm1, h⟩ := bind_eq_ok.mp h
  obtain ⟨rfl, rfl⟩ := Prod.mk.inj (Except.ok.inj h)
  rw [okOr_eq_ok] at hm1
  rcases storeAdvance_eq_ok hadv with ⟨-, rfl⟩ | ⟨m, m', hget, hcan, rfl, rfl, rfl⟩
  · cases hm1
  · obtain rfl := Option.some.inj hm1
    exact ⟨m, hget, hcan, rfl, rfl⟩

theorem event_eq_ok {payload : OpenCodePayload}
    (h : s.event instanceId session payload now = .ok s') :
    s' = { s with log := ⟨instanceId, session, payload, now⟩ :: s.log } :=
  (Except.ok.inj (require_bind_eq_ok.mp h).2).symm

theorem begin_effect {b : Bool} (h : s.begin_ id instanceId session backendId now = .ok (s', b)) :
    Effect s (.begin_ id instanceId session backendId now) s' (.ok (.bool b)) := by
  obtain ⟨-, h⟩ := require_bind_eq_ok.mp h
  obtain ⟨paused, hpaused, h⟩ := bind_eq_ok.mp h
  have hstill : s' = s → b = false →
      Effect s (.begin_ id instanceId session backendId now) s' (.ok (.bool b)) := by
    rintro rfl rfl
    exact .still rfl rfl rfl nofun
  cases paused with
  | true =>
    obtain ⟨rfl, rfl⟩ := Prod.mk.inj (Except.ok.inj h)
    exact hstill rfl rfl
  | false =>
    simp only [Bool.false_eq_true, if_false] at h
    split at h
    · rename_i m i hm hi
      split_ifs at h with hguard
      · obtain ⟨hto, hstate, hattempt, hhosts⟩ := hguard
        obtain ⟨hnone, h⟩ := require_bind_eq_ok.mp h
        obtain ⟨hs', rfl⟩ := Prod.mk.inj (Except.ok.inj h)
        let m' : Message := { m with
          attemptedAtUnixMs := some now
          turnId := some (reference session backendId)
          updatedAtUnixMs := now }
        have hr : Rewritten s s' id m m' := rewritten_put hm rfl (by rw [← hs'])
        exact .begun hr hto hstate hattempt hi hhosts hpaused hnone hstate rfl rfl
          (by rw [← hs']) (by rw [← hs'])
      · obtain ⟨rfl, rfl⟩ := Prod.mk.inj (Except.ok.inj h)
        exact hstill rfl rfl
    · obtain ⟨rfl, rfl⟩ := Prod.mk.inj (Except.ok.inj h)
      exact hstill rfl rfl

theorem accepted_effect (h : s.accepted id session backendId now = .ok s') :
    Effect s (.accepted id session backendId now) s' (.ok .unit) := by
  obtain ⟨m, hm, h⟩ := bind_eq_ok.mp h
  rw [okOr_eq_ok] at hm
  split_ifs at h with hguard
  · obtain ⟨hstate, hattempt⟩ := hguard
    obtain ⟨⟨t, r⟩, hadv, h⟩ := bind_eq_ok.mp h
    obtain rfl := Except.ok.inj h
    rcases storeAdvance_eq_ok hadv with ⟨rfl, -⟩ | ⟨m1, m', hget, -, -, rfl, rfl⟩
    · exact .still rfl rfl rfl nofun
    · obtain rfl := Option.some.inj (hget.symm.trans hm)
      refine .sent (rewritten_put hm ?_ rfl) hstate hattempt rfl rfl ?_ rfl rfl
      · rfl
      · exact (attemptIs_iff.mp hattempt).2.symm
  · obtain rfl := Except.ok.inj h
    exact .still rfl rfl rfl nofun

/-- The row as a sent one: it was, or it became one. -/
theorem sent_eq_ok (hget : s.base.messages.get id = some m) (hno : m.state ≠ .failed)
    (hturn : m.turnId = some (reference session backendId))
    (h : s.sent m session backendId now = .ok (s', m')) :
    Rewritten s s' id m m' ∧ (m'.state = .sent ∨ m'.state = .confirmed ∧ s' = s ∧ m' = m) ∧
      m'.attemptedAtUnixMs = m.attemptedAtUnixMs ∧ m'.turnId = m.turnId ∧ m'.id = m.id ∧
      (m.state = .confirmed → m' = m ∧ s' = s) ∧ s'.attempts = s.attempts ∧ s'.log = s.log ∧
      s'.base.messages.get id = some m' := by
  have hid := Store.id_of_message hget
  unfold OpenCode.sent at h
  split_ifs at h with hq
  · obtain ⟨m1, hm1, -, rfl, rfl⟩ := advance_eq_some h
    rw [hid, hget] at hm1
    obtain rfl := Option.some.inj hm1
    refine ⟨rewritten_put hget rfl rfl, Or.inl rfl, rfl, hturn.symm, rfl, ?_, rfl, rfl, ?_⟩
    · intro hc
      cases hq.symm.trans hc
    · rw [← hid]
      exact Table.get_put_self
  · obtain ⟨rfl, rfl⟩ := Prod.mk.inj (Except.ok.inj h)
    refine ⟨⟨hget, fun k => ?_⟩, ?_, rfl, rfl, rfl, fun _ => ⟨rfl, rfl⟩, rfl, rfl, hget⟩
    · split_ifs with hk
      · rw [hk, hget]
      · rfl
    · cases hs : m.state with
      | queued => exact absurd hs hq
      | sent => exact Or.inl rfl
      | confirmed => exact Or.inr ⟨rfl, rfl, rfl⟩
      | failed => exact absurd hs hno

theorem confirm_effect {r : Option Message} (h : s.confirm id session backendId now = .ok (s', r)) :
    Effect s (.confirm id session backendId now) s' (.ok (.message r)) := by
  unfold OpenCode.confirm at h
  split at h
  · obtain ⟨rfl, -⟩ := Prod.mk.inj (Except.ok.inj h)
    exact .still rfl rfl rfl nofun
  rename_i m hm
  split_ifs at h with hguard
  · obtain ⟨rfl, -⟩ := Prod.mk.inj (Except.ok.inj h)
    exact .still rfl rfl rfl nofun
  obtain ⟨hattempt, hno⟩ := not_or.mp hguard
  have hattempt : attemptIs m session backendId = true := Bool.eq_true_of_not_eq_false hattempt
  obtain ⟨⟨s1, m1⟩, hsent, h⟩ := bind_eq_ok.mp h
  obtain ⟨hr1, hor, hatt1, hturn1, hid1, hfin, ha1, hl1, hget1⟩ :=
    sent_eq_ok hm hno (attemptIs_iff.mp hattempt).2 hsent
  dsimp only at h
  split_ifs at h with hs1
  · obtain ⟨⟨s2, m2⟩, hadv, h⟩ := bind_eq_ok.mp h
    obtain ⟨m3, hm3, -, rfl, rfl⟩ := advance_eq_some hadv
    obtain rfl := Option.some.inj (hm3.symm.trans hget1)
    obtain ⟨s3, hev, h⟩ := bind_eq_ok.mp h
    have hs3 := event_eq_ok hev
    obtain ⟨rfl, -⟩ := Prod.mk.inj (Except.ok.inj h)
    have hstate : m.state = .queued ∨ m.state = .sent := by
      cases hst : m.state with
      | queued => exact Or.inl rfl
      | sent => exact Or.inr rfl
      | confirmed =>
        rw [(hfin hst).1, hst] at hs1
        cases hs1
      | failed => exact absurd hst hno
    let m' : Message := { m3 with
      state := .confirmed
      turnId := some (reference session backendId)
      updatedAtUnixMs := now }
    have hrw : Rewritten s1 { s1 with
        base := { s1.base with messages := s1.base.messages.put m' } } id m3 m' :=
      rewritten_put hget1 rfl rfl
    have hr : Rewritten s s3 id m m' := by
      refine ⟨hm, fun k => ?_⟩
      rw [hs3]
      refine (hrw.after k).trans ?_
      rw [hr1.after k]
      split_ifs <;> rfl
    have hturn : m'.turnId = m.turnId := (attemptIs_iff.mp hattempt).2.symm
    have hl : s3.log = ⟨m'.toInstance, session, .confirmed id, now⟩ :: s.log := by
      rw [hs3, ← hl1]
    exact .confirmed hr hstate hattempt rfl hatt1 hturn (by rw [hs3]; exact ha1) hl rfl rfl nofun
  · obtain ⟨rfl, -⟩ := Prod.mk.inj (Except.ok.inj h)
    rcases hor with hsent | ⟨-, rfl, -⟩
    · exact absurd hsent hs1
    · exact .still rfl rfl rfl nofun

theorem unknown_eq_some {a : OpenCodeAttempt} (h : s.unknown id = some a) :
    ∃ m, s.base.messages.get id = some m ∧ (m.state = .queued ∨ m.state = .sent) ∧
      m.attemptedAtUnixMs.isSome = true := by
  unfold OpenCode.unknown at h
  split at h
  · rename_i m hm
    split_ifs at h with hguard
    exact ⟨m, hm, hguard⟩
  · cases h

theorem abandon_effect (h : s.abandonUnknownOpencode id reason now = .ok s') :
    Effect s (.abandon id reason now) s' (.ok .unit) := by
  obtain ⟨a, ha, h⟩ := bind_eq_ok.mp h
  obtain ⟨m, hm, hstate, hattempt⟩ := unknown_eq_some (okOr_eq_ok.mp ha)
  obtain ⟨⟨s1, m1⟩, hadv, h⟩ := bind_eq_ok.mp h
  obtain ⟨m2, hm2, -, rfl, rfl⟩ := advance_eq_some hadv
  obtain rfl := Option.some.inj (hm2.symm.trans hm)
  have hs' := event_eq_ok h
  let m' : Message := { m2 with
    state := .failed
    turnId := none.or m2.turnId
    updatedAtUnixMs := now }
  have hr : Rewritten s s' id m2 m' := rewritten_put hm rfl (by rw [hs'])
  have hl : s'.log = ⟨m'.toInstance, a.sessionId, .abandoned id reason, now⟩ :: s.log := by
    rw [hs']
  exact .abandoned hr hstate hattempt rfl rfl rfl (by rw [hs']) hl rfl rfl

section Completions

variable {row : String × Option String × Bool} {rows newly : List (String × Option String × Bool)}

def Observed.of (instanceId session : String) (row : String × Option String × Bool) : Observed :=
  ⟨instanceId, session, row.1⟩

/-- The events of one completion, in their order. -/
def completion (instanceId session : String) (now : Nat) (row : String × Option String × Bool) :
    List OpenCodeEvent :=
  (if row.2.2 then [⟨instanceId, session, .usage, now⟩] else []) ++
    [⟨instanceId, session, .completed row.2.1, now⟩]

/-- The completions that were new are remembered, each with its events. -/
structure Completes (instanceId session : String) (now : Nat)
    (newly : List (String × Option String × Bool)) (s s' : OpenCode) : Prop where
  base : s'.base = s.base
  attempts : s'.attempts = s.attempts
  observed : s'.observed = (newly.map (Observed.of instanceId session)).reverse ++ s.observed
  nodup : (newly.map (Observed.of instanceId session)).Nodup
  fresh : ∀ row ∈ newly, Observed.of instanceId session row ∉ s.observed
  log : s'.log = (newly.flatMap (completion instanceId session now)).reverse ++ s.log

theorem completes_refl : Completes instanceId session now [] s s :=
  ⟨rfl, rfl, rfl, List.nodup_nil, List.forall_mem_nil _, rfl⟩

theorem complete_eq_ok (h : OpenCode.complete instanceId session now s row = .ok s') :
    Observed.of instanceId session row ∈ s.observed ∧ s' = s ∨
      Observed.of instanceId session row ∉ s.observed ∧
        s' = { s with
          observed := Observed.of instanceId session row :: s.observed
          log := (completion instanceId session now row).reverse ++ s.log } := by
  obtain ⟨id, summary, limited⟩ := row
  unfold OpenCode.complete at h
  dsimp only at h
  split_ifs at h with hmem hlimited
  · exact Or.inl ⟨hmem, (Except.ok.inj h).symm⟩
  · obtain ⟨s1, hs1, h⟩ := bind_eq_ok.mp h
    obtain rfl := event_eq_ok hs1
    refine Or.inr ⟨hmem, ?_⟩
    rw [event_eq_ok h]
    simp [completion, hlimited, Observed.of]
  · obtain ⟨s1, hs1, h⟩ := bind_eq_ok.mp h
    obtain rfl := Except.ok.inj hs1
    refine Or.inr ⟨hmem, ?_⟩
    rw [event_eq_ok h]
    simp [completion, hlimited, Observed.of]

theorem Completes.concat {s1 : OpenCode} (hc : Completes instanceId session now newly s s1)
    (hno : Observed.of instanceId session row ∉ s1.observed)
    (hs' : s' = { s1 with
      observed := Observed.of instanceId session row :: s1.observed
      log := (completion instanceId session now row).reverse ++ s1.log }) :
    Completes instanceId session now (newly ++ [row]) s s' := by
  rw [hc.observed, List.mem_append, List.mem_reverse, not_or] at hno
  subst hs'
  refine ⟨hc.base, hc.attempts, ?_, ?_, ?_, ?_⟩
  · simp [hc.observed]
  · rw [List.map_append, List.map_singleton, List.nodup_append]
    refine ⟨hc.nodup, List.nodup_singleton _, ?_⟩
    rintro a ha b hb rfl
    exact hno.1 (List.mem_singleton.mp hb ▸ ha)
  · intro r hr
    rcases List.mem_append.mp hr with hr | hr
    · exact hc.fresh r hr
    · rw [List.mem_singleton.mp hr]
      exact hno.2
  · simp [hc.log]

/-- A call observes the completions that are new, and remembers all of them. -/
theorem completed_eq_ok (h : s.completed instanceId session rows now = .ok s') :
    ∃ newly, newly.Sublist rows ∧ Completes instanceId session now newly s s' ∧
      ∀ row ∈ rows, Observed.of instanceId session row ∈ s'.observed := by
  obtain ⟨-, h⟩ := require_bind_eq_ok.mp h
  refine foldlM_rule (P := fun done s' => ∃ newly, newly.Sublist done ∧
    Completes instanceId session now newly s s' ∧
      ∀ row ∈ done, Observed.of instanceId session row ∈ s'.observed) ?_
    ⟨[], .slnil, completes_refl, List.forall_mem_nil _⟩ h
  rintro done row rest s1 s2 - ⟨newly, hsub, hc, hall⟩ hrow
  rcases complete_eq_ok hrow with ⟨hmem, rfl⟩ | ⟨hno, hs2⟩
  · refine ⟨newly, hsub.trans (List.sublist_append_left _ _), hc, fun r hr => ?_⟩
    rcases List.mem_append.mp hr with hr | hr
    · exact hall r hr
    · rw [List.mem_singleton.mp hr]
      exact hmem
  · refine ⟨newly ++ [row], hsub.append (List.Sublist.refl _), hc.concat hno hs2, fun r hr => ?_⟩
    rw [hs2]
    rcases List.mem_append.mp hr with hr | hr
    · exact List.mem_cons_of_mem _ (hall r hr)
    · rw [List.mem_singleton.mp hr]
      exact List.mem_cons_self

theorem about_of_completion (he : e ∈ completion instanceId session now row) :
    e.about state id = false := by
  unfold completion at he
  rcases List.mem_append.mp he with he | he
  · split_ifs at he
    · rw [List.mem_singleton.mp he]
      cases state <;> rfl
    · cases he
  · rw [List.mem_singleton.mp he]
    cases state <;> rfl

end Completions

/-- Calls on agents and their switches do not touch the messages. -/
theorem messages_of_shift {t t' : Store} {op : Operation} {out : Except String Reply}
    (hop : op.delivers = false) (hs : Shift t op t' out) : t'.messages = t.messages := by
  cases hs with
  | delivered hop' => cases hop.symm.trans hop'
  | still | added | removed | changed | launched | prepared | cancelled | rollbackPrepared
  | committed | restored | noted | finished => rfl

theorem runtime_effect {op : Operation} {t : Store} {r : Reply}
    (hown : OpenCodeCall.own (.runtime op) = true) (h : s.base.exec op = .ok (t, r)) :
    Effect s (.runtime op) (s.cascade op t) (.ok (.runtime r)) := by
  have hstill : t.messages = s.base.messages →
      Effect s (.runtime op) (s.cascade op t) (.ok (.runtime r)) := by
    intro hm
    unfold OpenCode.cascade
    split
    · exact .still hm rfl rfl nofun
    · exact .still hm rfl rfl nofun
  cases hop : op.delivers with
  | false =>
    have hstep : runtime.step s.base op t (.ok r) := by
      change s.base.call op = (t, .ok r)
      rw [Store.call, h]
    exact hstill (messages_of_shift hop (shift_of_step hstep))
  | true =>
    cases op with
    | claimMessage new now =>
      obtain ⟨⟨t1, claim⟩, hclaim, he⟩ := map_eq_ok.mp h
      obtain ⟨rfl, -⟩ := Prod.mk.inj he
      rcases claimMessage_eq_ok hclaim with rfl | ⟨m, hstate, hattempt, hnone, rfl⟩
      · exact hstill rfl
      · exact .inserted hnone hstate hattempt (insertMessage_cases s.base m).1 rfl rfl nofun
    | advance | reserve | written | acknowledge | abandon | abandonUnknown | release => cases hown
    | _ => cases hop

/-- Every call of the machine. -/
theorem effect_of_step (hs : opencode.step s c s' o) : Effect s c s' o := by
  obtain ⟨hown, hcall⟩ := hs
  unfold OpenCode.call at hcall
  cases hexec : s.exec c with
  | error text =>
    rw [hexec] at hcall
    obtain ⟨rfl, rfl⟩ := Prod.mk.inj hcall
    exact .still rfl rfl rfl nofun
  | ok x =>
    obtain ⟨s1, reply⟩ := x
    rw [hexec] at hcall
    obtain ⟨rfl, rfl⟩ := Prod.mk.inj hcall
    cases c with
    | runtime op =>
      obtain ⟨⟨t, r⟩, h, he⟩ := map_eq_ok.mp hexec
      obtain ⟨rfl, rfl⟩ := Prod.mk.inj he
      exact runtime_effect hown h
    | begin_ id instanceId session backendId now =>
      obtain ⟨⟨t, b⟩, h, he⟩ := map_eq_ok.mp hexec
      obtain ⟨rfl, rfl⟩ := Prod.mk.inj he
      exact begin_effect h
    | accepted id session backendId now =>
      obtain ⟨t, h, he⟩ := map_eq_ok.mp hexec
      obtain ⟨rfl, rfl⟩ := Prod.mk.inj he
      exact accepted_effect h
    | confirm id session backendId now =>
      obtain ⟨⟨t, m⟩, h, he⟩ := map_eq_ok.mp hexec
      obtain ⟨rfl, rfl⟩ := Prod.mk.inj he
      exact confirm_effect h
    | abandon id reason now =>
      obtain ⟨t, h, he⟩ := map_eq_ok.mp hexec
      obtain ⟨rfl, rfl⟩ := Prod.mk.inj he
      exact abandon_effect h
    | completed instanceId session rows now =>
      obtain ⟨t, h, he⟩ := map_eq_ok.mp hexec
      obtain ⟨rfl, rfl⟩ := Prod.mk.inj he
      obtain ⟨newly, -, hc, -⟩ := completed_eq_ok h
      refine .completed (by rw [hc.base]) hc.attempts hc.log fun e he state id => ?_
      obtain ⟨row, -, he⟩ := List.mem_flatMap.mp (List.mem_reverse.mp he)
      exact about_of_completion he
    | prune now =>
      obtain ⟨rfl, rfl⟩ := Prod.mk.inj (Except.ok.inj hexec)
      exact .pruned

end Agend.Runtime
