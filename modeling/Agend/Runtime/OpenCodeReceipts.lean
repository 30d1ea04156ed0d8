import Agend.Runtime.OpenCodeOnce

/-! Receipts of OpenCode messages over whole runs. -/
namespace Agend.Runtime

open Library

variable {s s' : OpenCode} {c : OpenCodeCall} {o : Except String OpenCodeReply}
  {id instanceId session backendId reason : String} {now : Nat} {m m' : Message}
  {state : DeliveryState} {e : OpenCodeEvent}

/-- What the log tells of the end of the message. -/
def OpenCode.told (s : OpenCode) (state : DeliveryState) (id : String) : List OpenCodeEvent :=
  s.log.filter fun e => e.about state id

theorem told_of_log (hl : s'.log = s.log) (st : DeliveryState) (k : String) :
    s'.told st k = s.told st k := by
  rw [OpenCode.told, hl]
  rfl

theorem told_of_about (hl : s'.log = e :: s.log) {st : DeliveryState} {k : String}
    (he : e.about st k = true) : s'.told st k = e :: s.told st k := by
  rw [OpenCode.told, hl]
  exact List.filter_cons_of_pos (p := fun e : OpenCodeEvent => e.about st k) he

theorem told_of_not_about (hl : s'.log = e :: s.log) {st : DeliveryState} {k : String}
    (he : ¬ e.about st k = true) : s'.told st k = s.told st k := by
  rw [OpenCode.told, hl]
  exact List.filter_cons_of_neg (p := fun e : OpenCodeEvent => e.about st k) he

theorem told_append {news : List OpenCodeEvent} (hl : s'.log = news ++ s.log)
    (hnews : ∀ e ∈ news, ∀ state id, e.about state id = false) (st : DeliveryState) (k : String) :
    s'.told st k = s.told st k := by
  have hnil : news.filter (fun e => e.about st k) = [] :=
    List.filter_eq_nil_iff.mpr fun e he => by rw [hnews e he]; exact Bool.false_ne_true
  rw [OpenCode.told, hl, List.filter_append, hnil]
  rfl

/-- An attempted message has its attempt, and the log tells of at most one end of it. -/
structure Attributed (s : OpenCode) : Prop where
  attempt : ∀ id a, s.attempts.get id = some a → ∃ m, s.base.messages.get id = some m ∧
    m.attemptedAtUnixMs.isSome = true ∧ m.turnId = some (reference a.sessionId a.backendMessageId)
  attempted : ∀ id m, s.base.messages.get id = some m → m.attemptedAtUnixMs.isSome = true →
    (s.attempts.get id).isSome = true
  queued : ∀ id m, s.base.messages.get id = some m → m.attemptedAtUnixMs = none →
    m.state = .queued
  logged : ∀ state id, s.told state id = [] ∨
    ∃ e m, s.told state id = [e] ∧ s.base.messages.get id = some m ∧
      m.state = state ∧ m.updatedAtUnixMs = e.ingestedAtUnixMs

/-- Only the end of a message is told. -/
theorem state_of_about (h : e.about state id = true) : state = .confirmed ∨ state = .failed := by
  cases state with
  | confirmed => exact Or.inl rfl
  | failed => exact Or.inr rfl
  | queued | sent => cases h

theorem about_confirmed (he : e.payload = .confirmed id) {other : String} :
    e.about state other = true ↔ state = .confirmed ∧ other = id := by
  unfold OpenCodeEvent.about
  rw [he]
  cases state with
  | confirmed => exact ⟨fun h => ⟨rfl, (of_decide_eq_true h).symm⟩, fun h => decide_eq_true h.2.symm⟩
  | failed | queued | sent => exact ⟨nofun, nofun⟩

theorem about_abandoned (he : e.payload = .abandoned id reason) {other : String} :
    e.about state other = true ↔ state = .failed ∧ other = id := by
  unfold OpenCodeEvent.about
  rw [he]
  cases state with
  | failed => exact ⟨fun h => ⟨rfl, (of_decide_eq_true h).symm⟩, fun h => decide_eq_true h.2.symm⟩
  | confirmed | queued | sent => exact ⟨nofun, nofun⟩

theorem Attributed.silent_of_open (hc : Attributed s) (hget : s.base.messages.get id = some m)
    (hopen : m.state = .queued ∨ m.state = .sent) (state : DeliveryState) :
    s.told state id = [] := by
  rcases hc.logged state id with hnil | ⟨e, m1, he, hm1, rfl, -⟩
  · exact hnil
  · obtain rfl := Option.some.inj (hm1.symm.trans hget)
    have hmem : e ∈ s.told m1.state id := by
      rw [he]
      exact List.mem_singleton_self e
    have hfinal := state_of_about (List.mem_filter.mp hmem).2
    rcases hopen with ho | ho
    · rw [ho] at hfinal
      rcases hfinal with h | h <;> cases h
    · rw [ho] at hfinal
      rcases hfinal with h | h <;> cases h

/-- A message that is rewritten keeps its attempt. -/
theorem Attributed.rewrite (hc : Attributed s) (hr : Rewritten s s' id m m')
    (ha : s'.attempts = s.attempts) (hsome : m.attemptedAtUnixMs.isSome = true)
    (hatt : m'.attemptedAtUnixMs = m.attemptedAtUnixMs) (hturn : m'.turnId = m.turnId)
    (hlogged : ∀ state k, s'.told state k = [] ∨
      ∃ e m, s'.told state k = [e] ∧ s'.base.messages.get k = some m ∧
        m.state = state ∧ m.updatedAtUnixMs = e.ingestedAtUnixMs) : Attributed s' where
  attempt k a hk := by
    rw [ha] at hk
    obtain ⟨m1, hm1, hatt1, hturn1⟩ := hc.attempt k a hk
    rw [hr.after]
    split_ifs with he
    · subst he
      obtain rfl := Option.some.inj (hm1.symm.trans hr.before)
      exact ⟨m', rfl, hatt ▸ hatt1, hturn.trans hturn1⟩
    · exact ⟨m1, hm1, hatt1, hturn1⟩
  attempted k m1 hk h1 := by
    rw [hr.after] at hk
    rw [ha]
    split_ifs at hk with he
    · subst he
      exact hc.attempted k m hr.before hsome
    · exact hc.attempted k m1 hk h1
  queued k m1 hk h1 := by
    rw [hr.after] at hk
    split_ifs at hk with he
    · obtain rfl := Option.some.inj hk
      rw [hatt] at h1
      rw [h1] at hsome
      cases hsome
    · exact hc.queued k m1 hk h1
  logged := hlogged

/-- A message ends, and the log tells of it once. -/
theorem Attributed.ended (hc : Attributed s) (hr : Rewritten s s' id m m')
    (hopen : m.state = .queued ∨ m.state = .sent) (hl : s'.log = e :: s.log)
    (habout : ∀ st k, e.about st k = true ↔ st = m'.state ∧ k = id)
    (hnow : e.ingestedAtUnixMs = m'.updatedAtUnixMs) (st : DeliveryState) (k : String) :
    s'.told st k = [] ∨
      ∃ e m, s'.told st k = [e] ∧ s'.base.messages.get k = some m ∧
        m.state = st ∧ m.updatedAtUnixMs = e.ingestedAtUnixMs := by
  by_cases hk : k = id
  · subst hk
    have hnil := hc.silent_of_open hr.before hopen st
    by_cases hst : st = m'.state
    · refine Or.inr ⟨e, m', ?_, ?_, hst.symm, hnow.symm⟩
      · rw [told_of_about hl ((habout st k).mpr ⟨hst, rfl⟩), hnil]
      · rw [hr.after, if_pos rfl]
    · refine Or.inl ?_
      rw [told_of_not_about hl fun h => hst ((habout st k).mp h).1]
      exact hnil
  · rw [told_of_not_about hl fun h => hk ((habout st k).mp h).2, hr.after, if_neg hk]
    exact hc.logged st k

theorem told_prune {st : DeliveryState} : (s.prune now).told st id =
    (s.told st id).filter fun e => !decide (e.ingestedAtUnixMs < cutoff 14 now) :=
  List.filter_comm _ _ _

theorem cutoff_le : cutoff 30 now ≤ cutoff 14 now := by
  unfold cutoff dayMs
  omega

/-- Retention deletes the end of a message from the log before it deletes the message. -/
theorem Attributed.prune (hc : Attributed s) : Attributed (s.prune now) where
  attempt id a ha := by
    obtain ⟨ha, hkept⟩ := Option.filter_eq_some_iff.mp (Table.get_filter.symm.trans ha)
    obtain ⟨m, hm, hatt, hturn⟩ := hc.attempt id a ha
    have hid : a.messageId = id := (Table.get_eq_some.mp ha).2
    obtain ⟨m1, hm1⟩ := Option.isSome_iff_exists.mp hkept
    rw [hid] at hm1
    obtain ⟨hget, -⟩ := Option.filter_eq_some_iff.mp (Table.get_filter.symm.trans hm1)
    obtain rfl := Option.some.inj (hget.symm.trans hm)
    exact ⟨m1, hm1, hatt, hturn⟩
  attempted id m hm hatt := by
    have hkept := hm
    obtain ⟨hget, -⟩ := Option.filter_eq_some_iff.mp (Table.get_filter.symm.trans hm)
    obtain ⟨a, ha⟩ := Option.isSome_iff_exists.mp (hc.attempted id m hget hatt)
    have hid : a.messageId = id := (Table.get_eq_some.mp ha).2
    refine Option.isSome_iff_exists.mpr ⟨a, Table.get_filter.trans ?_⟩
    refine Option.filter_eq_some_iff.mpr ⟨ha, ?_⟩
    rw [hid]
    exact Option.isSome_iff_exists.mpr ⟨m, hkept⟩
  queued id m hm hatt := by
    obtain ⟨hget, -⟩ := Option.filter_eq_some_iff.mp (Table.get_filter.symm.trans hm)
    exact hc.queued id m hget hatt
  logged st id := by
    rw [told_prune]
    rcases hc.logged st id with hnil | ⟨e, m, he, hm, hst, hnow⟩
    · exact Or.inl (by rw [hnil]; rfl)
    · rw [he]
      by_cases hold : e.ingestedAtUnixMs < cutoff 14 now
      · exact Or.inl (List.filter_cons_of_neg (by simp [hold]))
      · refine Or.inr ⟨e, m, List.filter_cons_of_pos (by simp [hold]), ?_, hst, hnow⟩
        have hmem : e ∈ s.told st id := by
          rw [he]
          exact List.mem_singleton_self e
        have hfinal := state_of_about (List.mem_filter.mp hmem).2
        have hatt : (s.attempts.get m.id).isSome = true := by
          rw [Store.id_of_message hm]
          refine hc.attempted id m hm (Option.isSome_iff_ne_none.mpr fun hno => ?_)
          have hq := hc.queued id m hm hno
          rw [hst] at hq
          subst hq
          rcases hfinal with h | h <;> cases h
        refine Table.get_filter.trans (Option.filter_eq_some_iff.mpr ⟨hm, ?_⟩)
        have hle : ¬ m.updatedAtUnixMs < cutoff 30 now := by
          rw [hnow]
          have hcut : cutoff 30 now ≤ cutoff 14 now := cutoff_le
          omega
        simp [OpenCode.expired, hatt, hle]

/-- Every call keeps the tables coherent. -/
theorem Attributed.effect (hc : Attributed s) (h : Effect s c s' o) : Attributed s' := by
  cases h with
  | still hm ha hl ho =>
    exact ⟨by rw [hm, ha]; exact hc.attempt, by rw [hm, ha]; exact hc.attempted,
      by rw [hm]; exact hc.queued, fun st id => by rw [hm, told_of_log hl]; exact hc.logged st id⟩
  | @inserted _ _ _ m hnone hstate hattempt hm ha hl ho =>
    refine ⟨fun id a hid => ?_, fun id m1 hid h1 => ?_, fun id m1 hid h1 => ?_, fun st id => ?_⟩
    · rw [ha] at hid
      obtain ⟨m1, hm1, hrest⟩ := hc.attempt id a hid
      refine ⟨m1, ?_, hrest⟩
      rw [hm, Table.get_put_of_ne, hm1]
      rintro rfl
      cases hnone.symm.trans hm1
    · rw [ha]
      rw [hm, Table.get_put] at hid
      split_ifs at hid
      · obtain rfl := Option.some.inj hid
        rw [hattempt] at h1
        cases h1
      · exact hc.attempted id m1 hid h1
    · rw [hm, Table.get_put] at hid
      split_ifs at hid
      · obtain rfl := Option.some.inj hid
        exact hstate
      · exact hc.queued id m1 hid h1
    · rw [told_of_log hl, hm]
      rcases hc.logged st id with hnil | ⟨e, m1, he, hm1, hrest⟩
      · exact Or.inl hnil
      · refine Or.inr ⟨e, m1, he, ?_, hrest⟩
        rw [Table.get_put_of_ne, hm1]
        rintro rfl
        cases hnone.symm.trans hm1
  | @begun id instanceId session backendId now _ m m' i hr hto hstate hattempt hi hosts hpaused
      hnone hstate' hattempt' hturn ha hl =>
    refine ⟨fun k a hk => ?_, fun k m1 hk h1 => ?_, fun k m1 hk h1 => ?_, fun st k => ?_⟩
    · rw [ha, Table.get_put] at hk
      rw [hr.after]
      split_ifs at hk ⊢ with he
      · obtain rfl := Option.some.inj hk
        exact ⟨m', rfl, by rw [hattempt']; rfl, hturn⟩
      · exact hc.attempt k a hk
    · rw [hr.after] at hk
      rw [ha, Table.get_put]
      split_ifs at hk ⊢ with he
      · rfl
      · exact hc.attempted k m1 hk h1
    · rw [hr.after] at hk
      split_ifs at hk with he
      · obtain rfl := Option.some.inj hk
        exact hstate'
      · exact hc.queued k m1 hk h1
    · rw [told_of_log hl, hr.after]
      by_cases hk : k = id
      · subst hk
        exact Or.inl (hc.silent_of_open hr.before (Or.inl hstate) st)
      · rw [if_neg hk]
        exact hc.logged st k
  | @sent id session backendId now _ m m' hr hstate hattempt hstate' hattempt' hturn ha hl =>
    refine hc.rewrite hr ha (attemptIs_iff.mp hattempt).1 hattempt' hturn fun st k => ?_
    rw [told_of_log hl, hr.after]
    by_cases hk : k = id
    · subst hk
      exact Or.inl (hc.silent_of_open hr.before (Or.inl hstate) st)
    · rw [if_neg hk]
      exact hc.logged st k
  | confirmed hr hstate hattempt hstate' hattempt' hturn ha hl he hnow ho =>
    refine hc.rewrite hr ha (attemptIs_iff.mp hattempt).1 hattempt' hturn
      (hc.ended hr hstate hl (fun st k => ?_) hnow)
    rw [hstate']
    exact about_confirmed he
  | abandoned hr hstate hattempt hstate' hattempt' hturn ha hl he hnow =>
    refine hc.rewrite hr ha hattempt hattempt' hturn (hc.ended hr hstate hl (fun st k => ?_) hnow)
    rw [hstate']
    exact about_abandoned he
  | completed hm ha hl hnews =>
    refine ⟨by rw [hm, ha]; exact hc.attempt, by rw [hm, ha]; exact hc.attempted,
      by rw [hm]; exact hc.queued, fun st id => ?_⟩
    rw [hm, told_append hl hnews]
    exact hc.logged st id
  | pruned => exact hc.prune

theorem attributed_reachable (hr : opencode.Reachable s) : Attributed s := by
  refine hr.invariant (fun s hs => ?_) fun s c s' o hc hs => hc.effect (effect_of_step hs)
  obtain rfl : s = OpenCode.empty := hs
  exact ⟨fun _ _ h => (nomatch h), fun _ _ h => (nomatch h), fun _ _ h => (nomatch h),
    fun _ _ => Or.inl rfl⟩

/-- A call that begins the attempt of a message. -/
def Begins (t : Transition OpenCode OpenCodeCall (Except String OpenCodeReply)) (id : String) :
    Prop :=
  ∃ instanceId session backendId now, t.event = .begin_ id instanceId session backendId now ∧
    t.output = .ok (.bool true)

/-- The call with a receipt of the stored attempt. Ids without the separator are those of the
attempt. -/
def Receipt (t : Transition OpenCode OpenCodeCall (Except String OpenCodeReply)) (id : String) :
    Prop :=
  ∃ session backendId now a, (t.event = .accepted id session backendId now ∨
      t.event = .confirm id session backendId now) ∧ t.before.attempts.get id = some a ∧
    reference session backendId = reference a.sessionId a.backendMessageId ∧
    ('|' ∉ session.toList → '|' ∉ backendId.toList →
      a.sessionId = session ∧ a.backendMessageId = backendId)

/-- A completion that is remembered by the call. -/
def Observes (t : Transition OpenCode OpenCodeCall (Except String OpenCodeReply)) (k : Observed) :
    Prop :=
  k ∉ t.before.observed ∧ k ∈ t.after.observed

/-- The messages of OpenCode agents, over a run. -/
structure DeliveredOnce
    (h : List (Transition OpenCode OpenCodeCall (Except String OpenCodeReply))) (s : OpenCode) :
    Prop where
  /-- Between two attempts of a message its row is gone. -/
  once : ∀ newer u mid t older id, h = newer ++ u :: (mid ++ t :: older) → Begins t id →
    Begins u id → ∃ v ∈ mid, v.after.base.messages.get id = none
  /-- An attempt is begun in the running push session of the agent, with no switch pending, and
  exactly it is stored. -/
  allowed : ∀ t ∈ h, ∀ id instanceId session backendId now,
    t.event = .begin_ id instanceId session backendId now → t.output = .ok (.bool true) →
    (∃ m i, t.before.base.messages.get id = some m ∧ m.toInstance = instanceId ∧
      t.before.base.instances.get instanceId = some i ∧ i.hosts session) ∧
    (∀ record, t.before.base.switches.get instanceId = some record →
      record.phase.pending = false) ∧
    t.before.attempts.get id = none ∧
    t.after.attempts = t.before.attempts.put ⟨id, session, backendId⟩
  /-- A message is sent or confirmed by a receipt of its attempt, or abandoned; the last two end
  it. -/
  moves : ∀ t ∈ h, ∀ id m m', t.before.base.messages.get id = some m →
    t.after.base.messages.get id = some m' → m'.state = m.state ∨
      m.state = .queued ∧ m'.state = .sent ∧ Receipt t id ∨
      (m.state = .queued ∨ m.state = .sent) ∧ m'.state = .confirmed ∧ Receipt t id ∨
      (m.state = .queued ∨ m.state = .sent) ∧ m'.state = .failed ∧
        ∃ reason now, t.event = .abandon id reason now
  stored : ∀ t ∈ h, ∀ id m, t.before.base.messages.get id = none →
    t.after.base.messages.get id = some m → m.state = .queued
  /-- The log tells of the end of a message once, until retention deletes that row of the log. -/
  told : ∀ id m, s.base.messages.get id = some m → m.state = .confirmed ∨ m.state = .failed →
    (s.told m.state id).length = 1 ∨
      s.told m.state id = [] ∧
        ∃ t ∈ h, ∃ now, t.event = .prune now ∧ m.updatedAtUnixMs < cutoff 14 now
  silent : ∀ state id, (∀ m, s.base.messages.get id = some m → m.state ≠ state) →
    s.told state id = []
  /-- A call tells of exactly the completions that are new, and remembers all of them. -/
  completes : ∀ t ∈ h, ∀ instanceId session rows now,
    t.event = .completed instanceId session rows now → t.output = .ok .unit →
    ∃ newly, newly.Sublist rows ∧ Completes instanceId session now newly t.before t.after ∧
      ∀ row ∈ rows, Observed.of instanceId session row ∈ t.after.observed
  /-- What is remembered is new again only when the agent was removed. -/
  observes : ∀ newer u mid t older k, h = newer ++ u :: (mid ++ t :: older) → Observes t k →
    Observes u k → ∃ v ∈ mid, v.event = .runtime (.removeInstance k.instanceId)

theorem reference_inj {session' backendId' : String} (hs : '|' ∉ session.toList)
    (hb : '|' ∉ backendId.toList) (h : reference session backendId = reference session' backendId') :
    session' = session ∧ backendId' = backendId := by
  have hlist := congrArg String.toList h
  simp only [reference, String.toList_append, List.append_assoc] at hlist
  obtain ⟨hsession, -, hbackend⟩ := (List.append_cons_inj_of_notMem hs hb).mp hlist
  exact ⟨(String.toList_injective hsession).symm, (String.toList_injective hbackend).symm⟩

/-- The reference of an attempted message is that of its attempt. -/
theorem Attributed.receipt (hc : Attributed s) (hget : s.base.messages.get id = some m)
    (hattempt : attemptIs m session backendId = true) : ∃ a, s.attempts.get id = some a ∧
      reference session backendId = reference a.sessionId a.backendMessageId ∧
      ('|' ∉ session.toList → '|' ∉ backendId.toList →
        a.sessionId = session ∧ a.backendMessageId = backendId) := by
  obtain ⟨hsome, hturn⟩ := attemptIs_iff.mp hattempt
  obtain ⟨a, ha⟩ := Option.isSome_iff_exists.mp (hc.attempted id m hget hsome)
  obtain ⟨m1, hm1, -, hturn1⟩ := hc.attempt id a ha
  obtain rfl := Option.some.inj (hm1.symm.trans hget)
  have href := Option.some.inj (hturn.symm.trans hturn1)
  exact ⟨a, ha, href, fun hs hb => reference_inj hs hb href⟩

/-- What one call does to one message. -/
theorem moves_effect {t : Transition OpenCode OpenCodeCall (Except String OpenCodeReply)}
    (hc : Attributed t.before) (h : Effect t.before t.event t.after t.output)
    (hm : t.before.base.messages.get id = some m) (hm' : t.after.base.messages.get id = some m') :
    m'.state = m.state ∨ m.state = .queued ∧ m'.state = .sent ∧ Receipt t id ∨
      (m.state = .queued ∨ m.state = .sent) ∧ m'.state = .confirmed ∧ Receipt t id ∨
      (m.state = .queued ∨ m.state = .sent) ∧ m'.state = .failed ∧
        ∃ reason now, t.event = .abandon id reason now := by
  obtain ⟨s, c, s', o⟩ := t
  change Effect s c s' o at h
  have hrewritten : ∀ {k m1 m1'}, Rewritten s s' k m1 m1' →
      m' = m ∨ k = id ∧ m1 = m ∧ m1' = m' := by
    intro k m1 m1' hr
    have hafter := (hr.after id).symm.trans hm'
    split_ifs at hafter with hk
    · subst hk
      exact Or.inr ⟨rfl, Option.some.inj (hr.before.symm.trans hm), Option.some.inj hafter⟩
    · exact Or.inl (Option.some.inj (hafter.symm.trans hm))
  have hsame : s'.base.messages.get id = s.base.messages.get id → m'.state = m.state := by
    intro he
    rw [Option.some.inj (hm'.symm.trans (he.trans hm))]
  cases h with
  | still hm1 => exact Or.inl (hsame (congrArg (Table.get · id) hm1))
  | @inserted _ _ _ m1 hnone _ _ hm1 =>
    refine Or.inl (hsame ?_)
    have hne : id ≠ m1.id := by
      rintro rfl
      cases hnone.symm.trans hm
    exact (congrArg (Table.get · id) hm1).trans (Table.get_put_of_ne hne)
  | begun hr hto hstate hattempt hi hosts hpaused hnone hstate' =>
    rcases hrewritten hr with rfl | ⟨rfl, rfl, rfl⟩
    · exact Or.inl rfl
    · exact Or.inl (hstate'.trans hstate.symm)
  | @sent k session backendId now _ _ _ hr hstate hattempt hstate' =>
    rcases hrewritten hr with rfl | ⟨rfl, rfl, rfl⟩
    · exact Or.inl rfl
    · obtain ⟨a, ha⟩ := hc.receipt hm hattempt
      exact Or.inr (Or.inl ⟨hstate, hstate', session, backendId, now, a, Or.inl rfl, ha⟩)
  | @confirmed k session backendId now _ _ _ _ _ hr hstate hattempt hstate' =>
    rcases hrewritten hr with rfl | ⟨rfl, rfl, rfl⟩
    · exact Or.inl rfl
    · obtain ⟨a, ha⟩ := hc.receipt hm hattempt
      exact Or.inr (Or.inr (Or.inl ⟨hstate, hstate', session, backendId, now, a, Or.inr rfl, ha⟩))
  | @abandoned k reason now _ _ _ _ hr hstate hattempt hstate' =>
    rcases hrewritten hr with rfl | ⟨rfl, rfl, rfl⟩
    · exact Or.inl rfl
    · exact Or.inr (Or.inr (Or.inr ⟨hstate, hstate', reason, now, rfl⟩))
  | completed hm1 => exact Or.inl (hsame (congrArg (Table.get · id) hm1))
  | pruned =>
    obtain ⟨hget, -⟩ := Option.filter_eq_some_iff.mp (Table.get_filter.symm.trans hm')
    exact Or.inl (hsame (hm'.trans hget.symm))

/-- A message is stored as a queued one. -/
theorem stored_effect (h : Effect s c s' o) (hnone : s.base.messages.get id = none)
    (hm : s'.base.messages.get id = some m) : m.state = .queued := by
  have hsame : s'.base.messages.get id = s.base.messages.get id → m.state = .queued := by
    intro he
    cases hm.symm.trans (he.trans hnone)
  have hrewritten : ∀ {k m1 m1'}, Rewritten s s' k m1 m1' → m.state = .queued := by
    intro k m1 m1' hr
    have hafter := (hr.after id).symm.trans hm
    split_ifs at hafter with hk
    · subst hk
      cases hnone.symm.trans hr.before
    · cases hnone.symm.trans hafter
  cases h with
  | still hm1 => exact hsame (congrArg (Table.get · id) hm1)
  | @inserted _ _ _ m1 _ hstate _ hm1 =>
    rw [hm1, Table.get_put] at hm
    split_ifs at hm
    · obtain rfl := Option.some.inj hm
      exact hstate
    · cases hnone.symm.trans hm
  | begun hr => exact hrewritten hr
  | sent hr => exact hrewritten hr
  | confirmed hr => exact hrewritten hr
  | abandoned hr => exact hrewritten hr
  | completed hm1 => exact hsame (congrArg (Table.get · id) hm1)
  | pruned =>
    obtain ⟨hget, -⟩ := Option.filter_eq_some_iff.mp (Table.get_filter.symm.trans hm)
    cases hnone.symm.trans hget

/-- An attempted message stays attempted. -/
theorem attempted_effect (h : Effect s c s' o) (hm : s.base.messages.get id = some m)
    (hm' : s'.base.messages.get id = some m') (hsome : m.attemptedAtUnixMs.isSome = true) :
    m'.attemptedAtUnixMs.isSome = true := by
  have hsame : s'.base.messages.get id = s.base.messages.get id →
      m'.attemptedAtUnixMs.isSome = true := by
    intro he
    rwa [Option.some.inj (hm'.symm.trans (he.trans hm))]
  have hrewritten : ∀ {k m1 m1'}, Rewritten s s' k m1 m1' →
      (m1.attemptedAtUnixMs.isSome = true → m1'.attemptedAtUnixMs.isSome = true) →
      m'.attemptedAtUnixMs.isSome = true := by
    intro k m1 m1' hr hkeep
    have hafter := (hr.after id).symm.trans hm'
    split_ifs at hafter with hk
    · subst hk
      obtain rfl := Option.some.inj (hr.before.symm.trans hm)
      exact Option.some.inj hafter ▸ hkeep hsome
    · exact Option.some.inj (hafter.symm.trans hm) ▸ hsome
  cases h with
  | still hm1 => exact hsame (congrArg (Table.get · id) hm1)
  | @inserted _ _ _ m1 hnone _ _ hm1 =>
    refine hsame ?_
    have hne : id ≠ m1.id := by
      rintro rfl
      cases hnone.symm.trans hm
    exact (congrArg (Table.get · id) hm1).trans (Table.get_put_of_ne hne)
  | begun hr _ _ _ _ _ _ _ _ hattempt' => exact hrewritten hr fun _ => by rw [hattempt']; rfl
  | sent hr _ _ _ hattempt' => exact hrewritten hr fun h => by rw [hattempt']; exact h
  | confirmed hr _ _ _ hattempt' => exact hrewritten hr fun h => by rw [hattempt']; exact h
  | abandoned hr _ _ _ hattempt' => exact hrewritten hr fun h => by rw [hattempt']; exact h
  | completed hm1 => exact hsame (congrArg (Table.get · id) hm1)
  | pruned =>
    obtain ⟨hget, -⟩ := Option.filter_eq_some_iff.mp (Table.get_filter.symm.trans hm')
    exact hsame (hm'.trans hget.symm)

/-- The log is silent about the end of a message only before it, or when retention passed. -/
theorem told_effect (hc : Attributed s) (h : Effect s c s' o)
    (hm : s'.base.messages.get id = some m) (hfinal : m.state = .confirmed ∨ m.state = .failed)
    (hnil : s'.told m.state id = []) :
    s.base.messages.get id = some m ∧ s.told m.state id = [] ∨
      ∃ now, c = .prune now ∧ m.updatedAtUnixMs < cutoff 14 now := by
  have hopen : m.state ≠ .queued ∧ m.state ≠ .sent := by
    rcases hfinal with h | h <;> rw [h] <;> exact ⟨nofun, nofun⟩
  have hrewritten : ∀ {k m1 m1'}, Rewritten s s' k m1 m1' →
      id ≠ k ∧ s.base.messages.get id = some m ∨ id = k ∧ m1' = m := by
    intro k m1 m1' hr
    have hafter := (hr.after id).symm.trans hm
    split_ifs at hafter with hk
    · exact Or.inr ⟨hk, Option.some.inj hafter⟩
    · exact Or.inl ⟨hk, hafter⟩
  cases h with
  | still hm1 ha hl =>
    rw [told_of_log hl] at hnil
    rw [hm1] at hm
    exact Or.inl ⟨hm, hnil⟩
  | inserted hnone hstate hattempt hm1 ha hl =>
    rw [told_of_log hl] at hnil
    rw [hm1, Table.get_put] at hm
    split_ifs at hm
    · obtain rfl := Option.some.inj hm
      exact absurd hstate hopen.1
    · exact Or.inl ⟨hm, hnil⟩
  | begun hr hto hstate hattempt hi hosts hpaused hnone hstate' hattempt' hturn ha hl =>
    rw [told_of_log hl] at hnil
    rcases hrewritten hr with ⟨-, hget⟩ | ⟨-, rfl⟩
    · exact Or.inl ⟨hget, hnil⟩
    · exact absurd hstate' hopen.1
  | sent hr hstate hattempt hstate' hattempt' hturn ha hl =>
    rw [told_of_log hl] at hnil
    rcases hrewritten hr with ⟨-, hget⟩ | ⟨-, rfl⟩
    · exact Or.inl ⟨hget, hnil⟩
    · exact absurd hstate' hopen.2
  | confirmed hr hstate hattempt hstate' hattempt' hturn ha hl he =>
    rcases hrewritten hr with ⟨hne, hget⟩ | ⟨rfl, rfl⟩
    · rw [told_of_not_about hl fun h => hne ((about_confirmed he).mp h).2] at hnil
      exact Or.inl ⟨hget, hnil⟩
    · rw [told_of_about hl ((about_confirmed he).mpr ⟨hstate', rfl⟩)] at hnil
      cases hnil
  | abandoned hr hstate hattempt hstate' hattempt' hturn ha hl he =>
    rcases hrewritten hr with ⟨hne, hget⟩ | ⟨rfl, rfl⟩
    · rw [told_of_not_about hl fun h => hne ((about_abandoned he).mp h).2] at hnil
      exact Or.inl ⟨hget, hnil⟩
    · rw [told_of_about hl ((about_abandoned he).mpr ⟨hstate', rfl⟩)] at hnil
      cases hnil
  | completed hm1 ha hl hnews =>
    rw [told_append hl hnews] at hnil
    rw [hm1] at hm
    exact Or.inl ⟨hm, hnil⟩
  | @pruned now =>
    obtain ⟨hget, -⟩ := Option.filter_eq_some_iff.mp (Table.get_filter.symm.trans hm)
    rcases hc.logged m.state id with hnone | ⟨e, m1, he, hm1, -, hnow⟩
    · exact Or.inl ⟨hget, hnone⟩
    · obtain rfl := Option.some.inj (hm1.symm.trans hget)
      refine Or.inr ⟨now, rfl, ?_⟩
      rw [told_prune, he] at hnil
      have hgone := List.filter_eq_nil_iff.mp hnil e (List.mem_singleton_self e)
      rw [hnow]
      by_contra hkept
      exact hgone (by simp [hkept])

theorem told_run {h : List (Transition OpenCode OpenCodeCall (Except String OpenCodeReply))}
    (hr : opencode.Run h s) : ∀ id m, s.base.messages.get id = some m →
      m.state = .confirmed ∨ m.state = .failed → s.told m.state id = [] →
      ∃ t ∈ h, ∃ now, t.event = .prune now ∧ m.updatedAtUnixMs < cutoff 14 now := by
  induction hr with
  | start hs =>
    intro id m hm
    obtain rfl := hs
    cases hm
  | snoc hr hs ih =>
    intro id m hm hfinal hnil
    rcases told_effect (attributed_reachable hr.reachable) (effect_of_step hs) hm hfinal hnil with
      ⟨hm, hnil⟩ | ⟨now, rfl, hlt⟩
    · obtain ⟨t, ht, hrest⟩ := ih id m hm hfinal hnil
      exact ⟨t, List.mem_cons_of_mem _ ht, hrest⟩
    · exact ⟨_, List.mem_cons_self, now, rfl, hlt⟩

theorem observed_advance {next : DeliveryState} {turnId : Option String} {error : String}
    (h : s.advance id next turnId now error = .ok (s', m)) : s'.observed = s.observed := by
  obtain ⟨-, -, -, -, rfl⟩ := advance_eq_some h
  rfl

theorem observed_begin {b : Bool} (h : s.begin_ id instanceId session backendId now = .ok (s', b)) :
    s'.observed = s.observed := by
  obtain ⟨-, h⟩ := require_bind_eq_ok.mp h
  obtain ⟨paused, -, h⟩ := bind_eq_ok.mp h
  have hpure : ∀ {b' : Bool}, (pure (s, b') : Except String _) = .ok (s', b) →
      s'.observed = s.observed := by
    intro b' hb
    obtain ⟨rfl, -⟩ := Prod.mk.inj (Except.ok.inj hb)
    rfl
  split_ifs at h
  · exact hpure h
  · split at h
    · split_ifs at h
      · obtain ⟨-, h⟩ := require_bind_eq_ok.mp h
        obtain ⟨rfl, -⟩ := Prod.mk.inj (Except.ok.inj h)
        rfl
      · exact hpure h
    · exact hpure h

theorem observed_confirm {r : Option Message}
    (h : s.confirm id session backendId now = .ok (s', r)) : s'.observed = s.observed := by
  have hpure : ∀ {t : OpenCode} {r' : Option Message}, t.observed = s.observed →
      (pure (t, r') : Except String _) = .ok (s', r) → s'.observed = s.observed := by
    intro t r' ht hb
    obtain ⟨rfl, -⟩ := Prod.mk.inj (Except.ok.inj hb)
    exact ht
  unfold OpenCode.confirm at h
  split at h
  · exact hpure rfl h
  split_ifs at h
  · exact hpure rfl h
  obtain ⟨⟨s1, m1⟩, hsent, h⟩ := bind_eq_ok.mp h
  have hs1 : s1.observed = s.observed := by
    unfold OpenCode.sent at hsent
    split_ifs at hsent
    · exact observed_advance hsent
    · exact congrArg OpenCode.observed (Prod.mk.inj (Except.ok.inj hsent)).1.symm
  dsimp only at h
  split_ifs at h
  · obtain ⟨⟨s2, m2⟩, hadv, h⟩ := bind_eq_ok.mp h
    obtain ⟨s3, hev, h⟩ := bind_eq_ok.mp h
    refine hpure ?_ h
    rw [event_eq_ok hev]
    exact (observed_advance hadv).trans hs1
  · exact hpure hs1 h

/-- What is remembered stays so until the agent is removed. -/
theorem observed_step {k : Observed} (hs : opencode.step s c s' o) (hk : k ∈ s.observed) :
    k ∈ s'.observed ∨ c = .runtime (.removeInstance k.instanceId) := by
  obtain ⟨-, hcall⟩ := hs
  unfold OpenCode.call at hcall
  cases hexec : s.exec c with
  | error text =>
    rw [hexec] at hcall
    obtain ⟨rfl, -⟩ := Prod.mk.inj hcall
    exact Or.inl hk
  | ok x =>
    obtain ⟨s1, reply⟩ := x
    rw [hexec] at hcall
    obtain ⟨rfl, -⟩ := Prod.mk.inj hcall
    cases c with
    | runtime op =>
      obtain ⟨⟨t, r⟩, h, he⟩ := map_eq_ok.mp hexec
      obtain ⟨rfl, -⟩ := Prod.mk.inj he
      unfold OpenCode.cascade
      split
      · rename_i id
        by_cases he : k.instanceId = id
        · exact Or.inr (by rw [he])
        · exact Or.inl (List.mem_filter.mpr ⟨hk, decide_eq_true he⟩)
      · exact Or.inl hk
    | begin_ id instanceId session backendId now =>
      obtain ⟨⟨t, b⟩, h, he⟩ := map_eq_ok.mp hexec
      obtain ⟨rfl, -⟩ := Prod.mk.inj he
      exact Or.inl (observed_begin h ▸ hk)
    | accepted id session backendId now =>
      obtain ⟨t, h, he⟩ := map_eq_ok.mp hexec
      obtain ⟨rfl, -⟩ := Prod.mk.inj he
      obtain ⟨m, -, h⟩ := bind_eq_ok.mp h
      split_ifs at h
      · obtain ⟨⟨base, r⟩, -, h⟩ := bind_eq_ok.mp h
        obtain rfl := Except.ok.inj h
        exact Or.inl hk
      · obtain rfl := Except.ok.inj h
        exact Or.inl hk
    | confirm id session backendId now =>
      obtain ⟨⟨t, m⟩, h, he⟩ := map_eq_ok.mp hexec
      obtain ⟨rfl, -⟩ := Prod.mk.inj he
      exact Or.inl (observed_confirm h ▸ hk)
    | abandon id reason now =>
      obtain ⟨t, h, he⟩ := map_eq_ok.mp hexec
      obtain ⟨rfl, -⟩ := Prod.mk.inj he
      obtain ⟨a, -, h⟩ := bind_eq_ok.mp h
      obtain ⟨⟨s1, m1⟩, hadv, h⟩ := bind_eq_ok.mp h
      rw [event_eq_ok h]
      exact Or.inl (observed_advance hadv ▸ hk)
    | completed instanceId session rows now =>
      obtain ⟨t, h, he⟩ := map_eq_ok.mp hexec
      obtain ⟨rfl, -⟩ := Prod.mk.inj he
      obtain ⟨newly, -, hc, -⟩ := completed_eq_ok h
      rw [hc.observed]
      exact Or.inl (List.mem_append_right _ hk)
    | prune now =>
      obtain ⟨rfl, -⟩ := Prod.mk.inj (Except.ok.inj hexec)
      exact Or.inl hk

/-- OpenCode delivery is at most once, and its receipts are those of the attempts. -/
theorem opencode_delivered_once
    {h : List (Transition OpenCode OpenCodeCall (Except String OpenCodeReply))} {s : OpenCode}
    (hr : opencode.Run h s) : DeliveredOnce h s where
  once newer u mid t older id hh ht hu := by
    subst hh
    obtain ⟨hrun, hn⟩ := hr.split
    obtain ⟨-, hnt⟩ := hrun.split
    obtain ⟨i, se, b, now, he, ho⟩ := ht
    obtain ⟨i', se', b', now', he', ho'⟩ := hu
    have hstart : ∃ m, t.after.base.messages.get id = some m ∧
        m.attemptedAtUnixMs.isSome = true := by
      have heff := effect_of_step hnt
      rw [he, ho] at heff
      cases heff with
      | still _ _ _ hno => exact (hno rfl).elim
      | inserted _ _ _ _ _ _ hno => exact (hno rfl).elim
      | begun hrw _ _ _ _ _ _ _ _ hattempt' =>
        exact ⟨_, (hrw.after id).trans (if_pos rfl), by rw [hattempt']; rfl⟩
    have hor := hrun.unless (E := fun v => v.after.base.messages.get id = none)
      (D := fun s => ∃ m, s.base.messages.get id = some m ∧ m.attemptedAtUnixMs.isSome = true)
      (fun s c s' o _ hs hD => by
        obtain ⟨m, hm, hsome⟩ := hD
        cases hm' : s'.base.messages.get id with
        | none => exact Or.inr rfl
        | some m' => exact Or.inl ⟨m', rfl, attempted_effect (effect_of_step hs) hm hm' hsome⟩)
      hstart
    refine hor.resolve_left fun hD => ?_
    obtain ⟨m, hm, hsome⟩ := hD
    have heff := effect_of_step hn
    rw [he', ho'] at heff
    cases heff with
    | still _ _ _ hno => exact hno rfl
    | inserted _ _ _ _ _ _ hno => exact hno rfl
    | begun hrw _ _ hattempt =>
      obtain rfl := Option.some.inj (hrw.before.symm.trans hm)
      rw [hattempt] at hsome
      cases hsome
  allowed t ht id instanceId session backendId now he ho := by
    obtain ⟨-, hn⟩ := hr.of_mem t ht
    have heff := effect_of_step hn
    rw [he, ho] at heff
    cases heff with
    | still _ _ _ hno => exact (hno rfl).elim
    | inserted _ _ _ _ _ _ hno => exact (hno rfl).elim
    | begun hrw hto _ _ hi hhosts hpaused hnone _ _ _ ha =>
      refine ⟨⟨_, _, hrw.before, hto, hi, hhosts⟩, fun record hrecord => ?_, hnone, ha⟩
      exact Store.deliveryPaused_eq_false hpaused record hrecord
  moves t ht id m m' hm hm' := by
    obtain ⟨hreach, hn⟩ := hr.of_mem t ht
    exact moves_effect (attributed_reachable hreach) (effect_of_step hn) hm hm'
  stored t ht id m hnone hm := by
    obtain ⟨-, hn⟩ := hr.of_mem t ht
    exact stored_effect (effect_of_step hn) hnone hm
  told id m hm hfinal := by
    rcases (attributed_reachable hr.reachable).logged m.state id with hnil | ⟨e, -, he, -⟩
    · exact Or.inr ⟨hnil, told_run hr id m hm hfinal hnil⟩
    · exact Or.inl (by rw [he]; rfl)
  silent state id hno := by
    rcases (attributed_reachable hr.reachable).logged state id with hnil | ⟨e, m, -, hm, hst, -⟩
    · exact hnil
    · exact absurd hst (hno m hm)
  completes t ht instanceId session rows now he ho := by
    obtain ⟨-, -, hcall⟩ := hr.of_mem t ht
    rw [he, ho] at hcall
    unfold OpenCode.call at hcall
    cases hexec : t.before.exec (.completed instanceId session rows now) with
    | error text =>
      rw [hexec] at hcall
      cases (Prod.mk.inj hcall).2
    | ok x =>
      obtain ⟨s1, reply⟩ := x
      rw [hexec] at hcall
      obtain ⟨hafter, -⟩ := Prod.mk.inj hcall
      obtain ⟨t1, h, he⟩ := map_eq_ok.mp hexec
      obtain ⟨rfl, -⟩ := Prod.mk.inj he
      rw [← hafter]
      exact completed_eq_ok h
  observes newer u mid t older k hh ht hu := by
    subst hh
    obtain ⟨hrun, -⟩ := hr.split
    have hor := hrun.unless (E := fun v => v.event = .runtime (.removeInstance k.instanceId))
      (D := fun s => k ∈ s.observed) (fun s c s' o _ hs hD => observed_step hs hD) ht.2
    exact hor.resolve_left hu.1

/-- A running agent, and a message to it. -/
def pushed : List OpenCodeCall :=
  let agent : Instance :=
    ⟨"open", .opencode, "opencode", [], "/repo", some "s", .running, true, none, false, "push"⟩
  [.runtime (.addInstance agent), .runtime (.claimMessage ⟨"m", "a", "open", none, "hi", .queue⟩ 1)]

theorem run_pushed (l : List OpenCodeCall) :
    let played := Machine.play (fun s c => if c.own then some (s.call c) else none) []
      OpenCode.empty l
    opencode.Run played.1 played.2 := by
  refine (Machine.Run.start (M := opencode) (s := OpenCode.empty) rfl).play fun s c s' o hn => ?_
  split_ifs at hn with hown
  exact ⟨hown, Option.some.inj hn⟩

/-- The message is written once, accepted and confirmed. -/
theorem opencode_delivered_once_pushed :
    let played := Machine.play (fun s c => if c.own then some (s.call c) else none) []
      OpenCode.empty (pushed ++ [.begin_ "m" "open" "s" "b" 2, .begin_ "m" "open" "s" "b" 3,
        .accepted "m" "s" "b" 4, .confirm "m" "s" "b" 5])
    (played.2.base.messages.get "m").map (·.state) = some .confirmed ∧
      (played.2.told .confirmed "m").length = 1 ∧ DeliveredOnce played.1 played.2 := by
  intro played
  refine ⟨by decide +kernel, by decide +kernel, opencode_delivered_once (run_pushed _)⟩

/-- Ids with a separator are taken for others, and retention deletes the event before the
message. -/
theorem opencode_confirmed_by_others :
    ∃ h s, opencode.Run h s ∧ (∃ t ∈ h, (t.event matches .confirm "m" "s|a" "b" 3) ∧
      t.before.attempts.get "m" = some ⟨"m", "s", "a|b"⟩ ∧
      (t.before.base.messages.get "m").map (·.state) = some .queued ∧
      (t.after.base.messages.get "m").map (·.state) = some .confirmed) ∧
      (s.base.messages.get "m").map (·.state) = some .confirmed ∧ s.told .confirmed "m" = [] := by
  let played := Machine.play (fun s c => if c.own then some (s.call c) else none) []
    OpenCode.empty (pushed ++ [.begin_ "m" "open" "s" "a|b" 2, .confirm "m" "s|a" "b" 3,
      .prune (15 * dayMs)])
  refine ⟨played.1, played.2, run_pushed _, ?_, by decide +kernel, by decide +kernel⟩
  have hany : (played.1.any fun t => (t.event matches .confirm "m" "s|a" "b" 3) &&
      (decide (t.before.attempts.get "m" = some ⟨"m", "s", "a|b"⟩) &&
      (decide ((t.before.base.messages.get "m").map (·.state) = some .queued) &&
      decide ((t.after.base.messages.get "m").map (·.state) = some .confirmed)))) = true := by
    decide +kernel
  obtain ⟨t, ht, hall⟩ := List.any_eq_true.mp hany
  obtain ⟨hevent, hall⟩ := Bool.and_eq_true_iff.mp hall
  obtain ⟨hattempt, hall⟩ := Bool.and_eq_true_iff.mp hall
  obtain ⟨hbefore, hafter⟩ := Bool.and_eq_true_iff.mp hall
  exact ⟨t, ht, hevent, of_decide_eq_true hattempt, of_decide_eq_true hbefore,
    of_decide_eq_true hafter⟩

end Agend.Runtime
