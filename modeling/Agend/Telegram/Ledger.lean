import Agend.Telegram.Poll
import Agend.Telegram.Receipts

/-! The ledger of claimed updates: no update is passed over and none acts twice. -/
namespace Agend.Telegram

open Client Library

section Ledger

open Relation

variable {s s' : Store} {bot : Nat} {id : Int} {op : Operation}

/-- The update has its row in the ledger. -/
def Store.Claimed (s : Store) (bot : Nat) (id : Int) : Prop :=
  ∃ row, s.updates.get (bot, id) = some row

/-- Rows of the ledger stay, with the notification that they used. -/
def Store.Kept (s s' : Store) : Prop :=
  ∀ key row, s.updates.get key = some row → ∃ row', s'.updates.get key = some row' ∧
    ∀ delivery, row.deliveryId = some delivery → row'.deliveryId = some delivery

theorem Store.Kept.claimed (hk : s.Kept s') (h : s.Claimed bot id) : s'.Claimed bot id := by
  obtain ⟨row, hget⟩ := h
  obtain ⟨row', hget', -⟩ := hk _ row hget
  exact ⟨row', hget'⟩

theorem Store.Kept.of_eq (h : s'.updates = s.updates) : s.Kept s' := by
  intro key row hget
  rw [h]
  exact ⟨row, hget, fun _ hd => hd⟩

/-- A row is written over one that had used nothing else. -/
theorem Store.Kept.of_put {key : Nat × Int} {row' : UpdateRow}
    (h : s'.updates = s.updates.put row') (hkey : row'.key = key)
    (hold : ∀ row, s.updates.get key = some row →
      ∀ delivery, row.deliveryId = some delivery → row'.deliveryId = some delivery) :
    s.Kept s' := by
  subst hkey
  intro k row hget
  rw [h]
  by_cases hk : k = row'.key
  · subst hk
    exact ⟨row', Table.get_put_self, hold row hget⟩
  · rw [Table.get_put_of_ne hk]
    exact ⟨row, hget, fun _ hd => hd⟩

/-- A written row claims its own update only. -/
theorem Store.Claimed.of_put {key : Nat × Int} {row' : UpdateRow} (hc : s'.Claimed bot id)
    (h : s'.updates = s.updates.put row') (hkey : row'.key = key) :
    (bot, id) = key ∨ s.Claimed bot id := by
  subst hkey
  obtain ⟨row, hget⟩ := hc
  rw [h, Table.get_put] at hget
  split_ifs at hget with hk
  · exact Or.inl hk
  · exact Or.inr ⟨row, hget⟩

theorem Store.key_of_get {key : Nat × Int} {row : UpdateRow}
    (h : s.updates.get key = some row) : row.key = key :=
  (Table.get_eq_some.mp h).2

/-- The next offset lies behind some claimed update. -/
theorem Store.lt_telegramOffset (hid : 0 ≤ id) (h : id < s.telegramOffset bot) :
    ∃ id', id ≤ id' ∧ s.Claimed bot id' := by
  unfold telegramOffset at h
  split at h
  · rename_i last hmax
    have hmem := List.max?_mem hmax
    obtain ⟨row, hrow, rfl⟩ := List.mem_map.mp hmem
    obtain ⟨hrow, hbot⟩ := List.mem_filter.mp hrow
    refine ⟨row.updateId, Int.lt_add_one_iff.mp h, row, Table.get_eq_some.mpr ⟨hrow, ?_⟩⟩
    exact congrArg (·, row.updateId) (of_decide_eq_true hbot)
  · omega

theorem updates_of_change (h : Change s s') : s'.updates = s.updates := by
  cases h <;> rfl

theorem updates_of_changes (h : ReflTransGen Change s s') : s'.updates = s.updates := by
  induction h with
  | refl => rfl
  | tail _ hc ih => exact (updates_of_change hc).trans ih

/-- The outbox calls leave the ledger alone. -/
theorem updates_call (hf : op.Fresh s) : (s.call op).1.updates = s.updates := by
  have hs : outbox.step s op (s.call op).1 (s.call op).2 := ⟨hf, rfl⟩
  rcases step_cases hs with ⟨_, _, _, _, _, _, _, _, _, _, _, heq⟩ |
    ⟨_, _, _, _, _, _, _, _, _, _, _, _, _, _, heq⟩ | ⟨hc, -⟩
  · rw [heq]
  · rw [heq]
  · exact updates_of_changes hc

end Ledger

section Runs

variable {feed : Feed} {fingerprint : Json → String} {s s' : System} {e : Event}
  {o : Option Dispatched} {h : List (Transition System Event (Option Dispatched))}

theorem moves_of_poll (hs : (poll feed fingerprint).step s e s' o) :
    Moves fingerprint s e s' o :=
  moves_of_step hs.2

theorem kept_of_step (hs : (poll feed fingerprint).step s e s' o) : s.store.Kept s'.store := by
  cases moves_of_poll hs with
  | outbox op => exact .of_eq (updates_call hs.1)
  | claimed hw hr hnew hid =>
    refine .of_put rfl rfl fun row hget => ?_
    cases hnew.symm.trans hget
  | used hw hget hrow hunused =>
    have hkey := Store.key_of_get hget
    refine .of_put rfl hkey fun row' hget' delivery hd => ?_
    rw [hget] at hget'
    rw [Option.some.inj hget', hd] at hrow
    cases hrow
  | finished hw hget heq =>
    have hkey := Store.key_of_get hget
    refine .of_put heq hkey fun row' hget' delivery hd => ?_
    rw [hget] at hget'
    rw [← Option.some.inj hget'] at hd
    exact hd
  | _ => exact .of_eq rfl

/-- Of the updates up to a claimed one, none is left out. -/
def Closed (feed : Feed) (s : Store) : Prop :=
  ∀ bot id v, feed.update bot id = some v → ∀ id', id ≤ id' → s.Claimed bot id' → s.Claimed bot id

/-- What is still to come of a batch, and that nothing before it was missed. -/
structure Round.Sound (feed : Feed) (s : Store) (r : Round) : Prop where
  held : ∀ u ∈ r.rest, feed.update r.bot u.1 = some u.2
  ordered : r.rest.Pairwise fun u v => u.1 < v.1
  behind : ∀ u ∈ r.rest, ∀ id v, feed.update r.bot id = some v → id < u.1 →
    s.Claimed r.bot id ∨ (id, v) ∈ r.rest

/-- What the loop knows where it stands. -/
def Phase.Sound (feed : Feed) (s : Store) (r : Round) : Phase → Prop
  | .fetching offset => ∀ id v, feed.update r.bot id = some v → id < offset → s.Claimed r.bot id
  | .claimed id update => feed.update r.bot id = some update
  | .acting id action => action.request.marksRead = false →
      ∃ row, s.updates.get (r.bot, id) = some row ∧ row.deliveryId = some action.deliveryId
  | _ => True

structure System.Sound (feed : Feed) (s : System) : Prop where
  closed : Closed feed s.store
  round : ∀ r phase, s.worker = some (r, phase) → r.Sound feed s.store
  phase : ∀ r phase, s.worker = some (r, phase) → phase.Sound feed s.store r

theorem Round.Sound.kept {store store' : Store} {r : Round} (hr : r.Sound feed store)
    (hk : store.Kept store') : r.Sound feed store' :=
  ⟨hr.held, hr.ordered, fun u hu id v hv hlt => (hr.behind u hu id v hv hlt).imp_left hk.claimed⟩

theorem Phase.Sound.kept {store store' : Store} {r : Round} {phase : Phase}
    (hp : phase.Sound feed store r) (hk : store.Kept store') : phase.Sound feed store' r := by
  cases phase with
  | fetching offset => exact fun id v hv hlt => hk.claimed (hp id v hv hlt)
  | acting id action =>
    intro hm
    obtain ⟨row, hget, hd⟩ := hp hm
    obtain ⟨row', hget', hd'⟩ := hk _ row hget
    exact ⟨row', hget', hd' _ hd⟩
  | _ => exact hp

/-- The rest of a batch after its first update was claimed. -/
theorem Round.Sound.tail {store store' : Store} {r : Round} {id : Int} {update : Json}
    {rest : List (Int × Json)} (hr : r.Sound feed store) (he : r.rest = (id, update) :: rest)
    (hk : store.Kept store') (hc : store'.Claimed r.bot id) :
    ({ r with rest := rest } : Round).Sound feed store' := by
  have hsub : ∀ u ∈ rest, u ∈ r.rest := fun u hu => he ▸ List.mem_cons_of_mem _ hu
  refine ⟨fun u hu => hr.held u (hsub u hu), (List.pairwise_cons.mp (he ▸ hr.ordered)).2, ?_⟩
  intro u hu id' v hv hlt
  rcases hr.behind u (hsub u hu) id' v hv hlt with hc' | hmem
  · exact Or.inl (hk.claimed hc')
  · rw [he] at hmem
    rcases List.mem_cons.mp hmem with heq | hmem
    · obtain ⟨rfl, -⟩ := Prod.mk.inj heq
      exact Or.inl hc
    · exact Or.inr hmem

/-- Everything before the first update of the rest was claimed. -/
theorem Round.Sound.claimed_before {store : Store} {r : Round} {id : Int} {update : Json}
    {rest : List (Int × Json)} (hr : r.Sound feed store) (he : r.rest = (id, update) :: rest)
    {id' : Int} {v : Json} (hv : feed.update r.bot id' = some v) (hlt : id' < id) :
    store.Claimed r.bot id' := by
  have hfirst : (id, update) ∈ r.rest := he ▸ List.mem_cons_self
  rcases hr.behind _ hfirst id' v hv hlt with hc | hmem
  · exact hc
  · have hsorted := List.pairwise_cons.mp (he ▸ hr.ordered)
    rw [he] at hmem
    rcases List.mem_cons.mp hmem with heq | hmem
    · exact absurd (Prod.mk.inj heq).1 (ne_of_lt hlt)
    · exact absurd (hsorted.1 _ hmem) (not_lt_of_gt hlt)

/-- An answer, taken whole: what it passes over was claimed before. -/
theorem Feed.Answer.sound {store : Store} {r : Round} {offset : Int} {batch : List (Int × Json)}
    (ha : feed.Answer r.bot offset batch)
    (hp : (Phase.fetching offset).Sound feed store r) :
    ({ r with rest := batch } : Round).Sound feed store := by
  refine ⟨ha.held, ha.ordered, fun u hu id v hv hlt => ?_⟩
  by_cases hoff : id < offset
  · exact Or.inl (hp id v hv hoff)
  · exact Or.inr (ha.full id v hv (not_lt.mp hoff) u hu (le_of_lt hlt))

/-- Only the claim of an update adds to the ledger, and it is the first one not claimed. -/
theorem closed_step (hi : s.Sound feed) (hs : (poll feed fingerprint).step s e s' o) :
    Closed feed s'.store := by
  have hk := kept_of_step hs
  have hback : (∀ bot id, s'.store.Claimed bot id → s.store.Claimed bot id) →
      Closed feed s'.store := by
    intro hback bot id v hv id' hle hc
    exact hk.claimed (hi.closed bot id v hv id' hle (hback bot id' hc))
  cases moves_of_poll hs with
  | outbox op =>
    refine hback fun bot id hc => ?_
    obtain ⟨row, hget⟩ := hc
    exact ⟨row, updates_call hs.1 ▸ hget⟩
  | @claimed r id update rest hw hr hnew hid =>
    intro bot id1 v hv id' hle hc
    rcases hc.of_put (s := s.store) rfl rfl with hkey | hc
    · obtain ⟨rfl, rfl⟩ := Prod.mk.inj hkey
      rcases lt_or_eq_of_le hle with hlt | rfl
      · exact hk.claimed ((hi.round r _ hw).claimed_before hr hv hlt)
      · exact ⟨_, Table.get_put_self⟩
    · exact hk.claimed (hi.closed bot id1 v hv id' hle hc)
  | used hw hget hrow hunused =>
    have hrowkey := Store.key_of_get hget
    refine hback fun bot id hc => ?_
    rcases hc.of_put (s := s.store) rfl hrowkey with hkey | hc
    · obtain ⟨rfl, rfl⟩ := Prod.mk.inj hkey
      exact ⟨_, hget⟩
    · exact hc
  | finished hw hget heq =>
    have hrowkey := Store.key_of_get hget
    refine hback fun bot id hc => ?_
    rcases hc.of_put heq hrowkey with hkey | hc
    · obtain ⟨rfl, rfl⟩ := Prod.mk.inj hkey
      exact ⟨_, hget⟩
    · exact hc
  | _ => exact hback fun _ _ hc => hc

/-- What the loop knows after a step. -/
theorem sound_step (hi : s.Sound feed) (hs : (poll feed fingerprint).step s e s' o) :
    s'.Sound feed := by
  have hk := kept_of_step hs
  have hclosed := closed_step hi hs
  -- the loop stays in its round
  have hsame : ∀ {r phase phase'}, s.worker = some (r, phase) → s'.worker = some (r, phase') →
      phase'.Sound feed s'.store r → s'.Sound feed := by
    intro r phase phase' hw hw' hp
    refine ⟨hclosed, fun r1 p1 h1 => ?_, fun r1 p1 h1 => ?_⟩
    · obtain ⟨rfl, rfl⟩ := Prod.mk.inj (Option.some.inj (hw'.symm.trans h1))
      exact (hi.round r phase hw).kept hk
    · obtain ⟨rfl, rfl⟩ := Prod.mk.inj (Option.some.inj (hw'.symm.trans h1))
      exact hp
  -- the loop goes on with another rest
  have hnext : ∀ {r phase}, s'.worker = some (r, phase) → r.Sound feed s'.store →
      phase.Sound feed s'.store r → s'.Sound feed := by
    intro r phase hw' hr hp
    refine ⟨hclosed, fun r1 p1 h1 => ?_, fun r1 p1 h1 => ?_⟩
    · obtain ⟨rfl, rfl⟩ := Prod.mk.inj (Option.some.inj (hw'.symm.trans h1))
      exact hr
    · obtain ⟨rfl, rfl⟩ := Prod.mk.inj (Option.some.inj (hw'.symm.trans h1))
      exact hp
  cases moves_of_poll hs with
  | outbox op =>
    exact ⟨hclosed, fun r p h => (hi.round r p h).kept hk, fun r p h => (hi.phase r p h).kept hk⟩
  | left e => exact ⟨hclosed, fun _ _ h => (nomatch h), fun _ _ h => (nomatch h)⟩
  | began =>
    refine hnext rfl ⟨fun u hu => (nomatch hu), List.Pairwise.nil, fun u hu => (nomatch hu)⟩ ?_
    intro id v hv hlt
    obtain ⟨id', hle, hc⟩ := Store.lt_telegramOffset (feed.nonneg hv) hlt
    exact hi.closed _ id v hv id' hle hc
  | @answered r offset batch rest hw hv =>
    have ha := hs.1 r offset hw
    obtain rfl := ha.validated hv
    exact hnext rfl (ha.sound (hi.phase r _ hw)) trivial
  | @claimed r id update rest hw hr hnew hid =>
    have hround := hi.round r _ hw
    have hheld : feed.update r.bot id = some update := hround.held _ (hr ▸ List.mem_cons_self)
    exact hnext rfl (hround.tail hr hk ⟨_, Table.get_put_self⟩) hheld
  | @passed r id update rest row hw hr hold =>
    exact hnext rfl ((hi.round r _ hw).tail hr hk ⟨row, hold⟩) trivial
  | refused hw => exact hsame hw rfl trivial
  | marking hw ha hm =>
    refine hsame hw rfl fun hno => ?_
    rw [hm] at hno
    cases hno
  | admitted hw => exact hsame hw rfl trivial
  | @used r id action row hw hget =>
    have hkey := Store.key_of_get hget
    refine hsame hw rfl fun _ => ⟨{ row with deliveryId := some action.deliveryId }, ?_, rfl⟩
    rw [← hkey]
    exact Table.get_put_self
  | dispatched result hw => exact hsame hw rfl trivial
  | finished hw => exact hsame hw rfl trivial

theorem sound_of_reachable (hr : (poll feed fingerprint).Reachable s) : s.Sound feed := by
  refine hr.invariant ?_ fun s e s' o hi hs => sound_step hi hs
  rintro _ rfl
  exact ⟨fun _ _ _ _ _ _ hc => (by obtain ⟨_, hget⟩ := hc; cases hget), fun _ _ h => (nomatch h),
    fun _ _ h => (nomatch h)⟩

/-- An action other than marking as read was handed over for the update. -/
def ActsOn (bot : Nat) (id : Int) (t : Transition System Event (Option Dispatched)) : Prop :=
  ∃ action, t.output = some ⟨bot, id, action⟩ ∧ action.request.marksRead = false

/-- An action other than marking as read was handed over for the notification. -/
def Spends (delivery : String) (t : Transition System Event (Option Dispatched)) : Prop :=
  ∃ d, t.output = some d ∧ d.action.request.marksRead = false ∧ d.action.deliveryId = delivery

/-- The loop is about to act, other than by marking as read. -/
def System.Acting (s : System) (bot : Nat) (id : Int) (delivery : String) : Prop :=
  ∃ r action, s.worker = some (r, .acting id action) ∧ r.bot = bot ∧
    action.deliveryId = delivery ∧ action.request.marksRead = false

theorem dispatch_cases (hs : (poll feed fingerprint).step s e s' o) {d : Dispatched}
    (ho : o = some d) :
    (∃ r, s.worker = some (r, .acting d.update d.action) ∧ r.bot = d.bot) ∧
      s'.store = s.store ∧ ∀ bot id delivery, ¬ s'.Acting bot id delivery := by
  subst ho
  cases moves_of_poll hs with
  | dispatched result hw =>
    refine ⟨⟨_, hw, rfl⟩, rfl, ?_⟩
    rintro bot id delivery ⟨r, action, hw', -⟩
    cases hw'

/-- The loop comes to act through a claim of an update that had used nothing, for a notification
that nothing had used. -/
theorem acting_cases {bot : Nat} {id : Int} {delivery : String}
    (hs : (poll feed fingerprint).step s e s' o) (ha : s'.Acting bot id delivery) :
    s.Acting bot id delivery ∨
      (∃ row, s.store.updates.get (bot, id) = some row ∧ row.deliveryId = none) ∧
      ∀ other ∈ s.store.updates.rows, other.deliveryId ≠ some delivery := by
  obtain ⟨r, action, hw', hbot, hdelivery, hm⟩ := ha
  cases moves_of_poll hs with
  | outbox op => exact Or.inl ⟨r, action, hw', hbot, hdelivery, hm⟩
  | marking hw ha' hm' =>
    cases hw'
    rw [hm] at hm'
    cases hm'
  | used hw hget hrow hunused =>
    cases hw'
    subst hbot hdelivery
    exact Or.inr ⟨⟨_, hget, hrow⟩, hunused⟩
  | _ => cases hw'

/-- The ledger row of an action that is handed over names its notification. -/
theorem used_of_dispatch (hi : s.Sound feed) (hs : (poll feed fingerprint).step s e s' o)
    {d : Dispatched} (ho : o = some d) (hm : d.action.request.marksRead = false) :
    ∃ row, s'.store.updates.get (d.bot, d.update) = some row ∧
      row.deliveryId = some d.action.deliveryId := by
  obtain ⟨⟨r, hw, hbot⟩, heq, -⟩ := dispatch_cases hs ho
  rw [heq, ← hbot]
  exact hi.phase r _ hw hm

/-- Once an update was acted on, it is never acted on again. -/
theorem actsOn_at_most_once (hr : (poll feed fingerprint).Run h s) (bot : Nat) (id : Int) :
    h.Pairwise fun later earlier => ActsOn bot id earlier → ¬ ActsOn bot id later := by
  refine hr.at_most_once (D := fun s => (∃ row delivery, s.store.updates.get (bot, id) = some row ∧
    row.deliveryId = some delivery) ∧ ∀ delivery, ¬ s.Acting bot id delivery) ?_ ?_ ?_
  · rintro s e s' o hreach hs ⟨action, ho, hm⟩
    obtain ⟨row, hget, hd⟩ := used_of_dispatch (sound_of_reachable hreach) hs ho hm
    exact ⟨⟨row, _, hget, hd⟩, fun delivery => (dispatch_cases hs ho).2.2 bot id delivery⟩
  · rintro s e s' o - hs ⟨⟨row, delivery, hget, hd⟩, hno⟩
    obtain ⟨row', hget', hd'⟩ := kept_of_step hs _ row hget
    refine ⟨⟨row', delivery, hget', hd' _ hd⟩, fun delivery' ha => ?_⟩
    rcases acting_cases hs ha with ha | ⟨⟨row1, hget1, hnone⟩, -⟩
    · exact hno delivery' ha
    · rw [hget] at hget1
      rw [← Option.some.inj hget1, hd] at hnone
      cases hnone
  · rintro s e s' o - hs ⟨-, hno⟩ ⟨action, ho, hm⟩
    obtain ⟨⟨r, hw, hbot⟩, -⟩ := dispatch_cases hs ho
    exact hno _ ⟨r, action, hw, hbot, rfl, hm⟩

/-- Once a notification was acted on, it is never acted on again. -/
theorem spends_at_most_once (hr : (poll feed fingerprint).Run h s) (delivery : String) :
    h.Pairwise fun later earlier => Spends delivery earlier → ¬ Spends delivery later := by
  refine hr.at_most_once (D := fun s => (∃ key row, s.store.updates.get key = some row ∧
    row.deliveryId = some delivery) ∧ ∀ bot id, ¬ s.Acting bot id delivery) ?_ ?_ ?_
  · rintro s e s' o hreach hs ⟨d, ho, hm, rfl⟩
    obtain ⟨row, hget, hd⟩ := used_of_dispatch (sound_of_reachable hreach) hs ho hm
    exact ⟨⟨_, row, hget, hd⟩, fun bot id => (dispatch_cases hs ho).2.2 bot id _⟩
  · rintro s e s' o - hs ⟨⟨key, row, hget, hd⟩, hno⟩
    obtain ⟨row', hget', hd'⟩ := kept_of_step hs _ row hget
    refine ⟨⟨key, row', hget', hd' _ hd⟩, fun bot id ha => ?_⟩
    rcases acting_cases hs ha with ha | ⟨-, hunused⟩
    · exact hno bot id ha
    · exact hunused row (Table.get_eq_some.mp hget).1 hd
  · rintro s e s' o - hs ⟨-, hno⟩ ⟨d, ho, hm, rfl⟩
    obtain ⟨⟨r, hw, hbot⟩, -⟩ := dispatch_cases hs ho
    exact hno _ _ ⟨r, d.action, hw, rfl, rfl, hm⟩

/-- The action was admitted for the update, from a delivery that was current then. -/
def AdmittedAt (feed : Feed) (bot : Nat) (id : Int) (action : Admitted)
    (t : Transition System Event (Option Dispatched)) : Prop :=
  t.event = .admitting ∧ ∃ config update p messageId row, feed.update bot id = some update ∧
    admitUpdate t.before.store config bot update = .ok action ∧ pointed update = .ok p ∧
    action.deliveryId = row.id ∧ CurrentDelivery t.before.store bot update p messageId row

theorem admittedAt_of_admitting {r : Round} {id : Int} {update : Json} {action : Admitted}
    (hi : s.Sound feed) (hw : s.worker = some (r, .claimed id update))
    (ha : admitUpdate s.store r.config r.bot update = .ok action) :
    AdmittedAt feed r.bot id action ⟨s, .admitting, s', o⟩ := by
  obtain ⟨p, messageId, row, hp, hrow, hc⟩ := admitUpdate_eq_ok ha
  exact ⟨rfl, r.config, update, p, messageId, row, hi.phase r _ hw, ha, hp, hrow, hc⟩

/-- What the loop is about to act on was admitted earlier in the run. -/
theorem admitted_of_run (hr : (poll feed fingerprint).Run h s) :
    ∀ r id action, s.worker = some (r, .admitted id action) ∨ s.worker = some (r, .acting id action) →
      ∃ t ∈ h, AdmittedAt feed r.bot id action t := by
  refine Machine.Run.invariant (P := fun h s => ∀ r id action,
    s.worker = some (r, .admitted id action) ∨ s.worker = some (r, .acting id action) →
      ∃ t ∈ h, AdmittedAt feed r.bot id action t) ?_ ?_ hr
  · rintro _ rfl r id action (hw | hw) <;> cases hw
  · intro h s e s' o hr ih hs r id action hw'
    have hi := sound_of_reachable hr.reachable
    have hearlier : (∃ t ∈ h, AdmittedAt feed r.bot id action t) →
        ∃ t ∈ (⟨s, e, s', o⟩ :: h : List (Transition System Event (Option Dispatched))),
          AdmittedAt feed r.bot id action t := by
      rintro ⟨t, ht, ha⟩
      exact ⟨t, List.mem_cons_of_mem _ ht, ha⟩
    cases moves_of_poll hs with
    | outbox op => exact hearlier (ih r id action hw')
    | marking hw ha hm =>
      rcases hw' with hw' | hw' <;> cases hw'
      exact ⟨_, List.mem_cons_self, admittedAt_of_admitting hi hw ha⟩
    | admitted hw ha =>
      rcases hw' with hw' | hw' <;> cases hw'
      exact ⟨_, List.mem_cons_self, admittedAt_of_admitting hi hw ha⟩
    | used hw =>
      rcases hw' with hw' | hw' <;> cases hw'
      exact hearlier (ih _ _ _ (Or.inl hw))
    | _ => rcases hw' with hw' | hw' <;> cases hw'

/-- For each update, and for each notification, one action other than marking as read is handed
over at most; the offset passes over no update that was not claimed; and whatever is handed over
was admitted earlier, from a delivery that was complete, current, unused and named by the update. -/
theorem poll_acts_once (hr : (poll feed fingerprint).Run h s) :
    (∀ bot id, h.Pairwise fun later earlier => ActsOn bot id earlier → ¬ ActsOn bot id later) ∧
    (∀ delivery, h.Pairwise fun later earlier =>
      Spends delivery earlier → ¬ Spends delivery later) ∧
    (∀ bot id update, feed.update bot id = some update → id < s.store.telegramOffset bot →
      s.store.Claimed bot id) ∧
    (∀ newer t older d, h = newer ++ t :: older → t.output = some d →
      ∃ t' ∈ older, AdmittedAt feed d.bot d.update d.action t') := by
  refine ⟨actsOn_at_most_once hr, spends_at_most_once hr, ?_, ?_⟩
  · intro bot id update hu hlt
    obtain ⟨id', hle, hc⟩ := Store.lt_telegramOffset (feed.nonneg hu) hlt
    exact (sound_of_reachable hr.reachable).closed bot id update hu id' hle hc
  · rintro newer t older d rfl ho
    obtain ⟨holder, hs⟩ := hr.split
    obtain ⟨⟨r, hw, hbot⟩, -⟩ := dispatch_cases hs ho
    rw [← hbot]
    exact admitted_of_run holder r _ _ (Or.inr hw)

end Runs

def Phase.offset? : Phase → Option Int
  | .fetching offset => some offset
  | _ => none

/-- A button under the notification is pressed. -/
def pressed : Json :=
  .obj [("update_id", .num "5"), ("callback_query", .obj [("id", .str "q"),
    ("from", .obj [("id", .num "7"), ("is_bot", .bool false)]),
    ("message", .obj [("message_id", .num "7"),
      ("from", .obj [("id", .num "1"), ("is_bot", .bool true)]),
      ("chat", .obj [("id", .num "42")])]),
    ("data", .str "a:d:0")])]

theorem asI64_pressed : (pressed.index "update_id").asI64 = some 5 := by decide +kernel

def onlyPressed : Feed where
  update _ id := if id = 5 then some pressed else none
  named {bot id v} hv := by
    split_ifs at hv with hid
    cases hv
    rw [hid, asI64_pressed]
  nonneg {bot id v} hv := by
    split_ifs at hv with hid
    omega

def sameFingerprint (_ : Json) : String :=
  "92a815405b87ef89899b79074c46e466d95549d07c10c3ccf88b31b37cd2c7bb"

/-- One event, where its ids are fresh and its answer is the one update from zero on. -/
def System.pressing (s : System) : Event → Option (System × Option Dispatched)
  | .outbox op => if op.Fresh s.store then s.step sameFingerprint (.outbox op) else none
  | .answer batch =>
    if batch = [(5, pressed)] ∧ s.worker.bind (·.2.offset?) = some 0 then
      s.step sameFingerprint (.answer batch)
    else none
  | e => s.step sameFingerprint e

theorem answer_onlyPressed (bot : Nat) : onlyPressed.Answer bot 0 [(5, pressed)] := by
  refine ⟨by simp [onlyPressed], by simp, List.pairwise_singleton _ _, fun id v hv _ _ _ _ => ?_⟩
  simp only [onlyPressed] at hv
  split_ifs at hv with hid
  cases hv
  rw [hid]
  exact List.mem_singleton_self _

theorem step_of_pressing {s s' : System} {e : Event} {o : Option Dispatched}
    (h : s.pressing e = some (s', o)) : (poll onlyPressed sameFingerprint).step s e s' o := by
  cases e with
  | outbox op =>
    rw [System.pressing] at h
    split_ifs at h with hfresh
    exact ⟨hfresh, h⟩
  | answer batch =>
    rw [System.pressing] at h
    split_ifs at h with hfirst
    obtain ⟨rfl, hoffset⟩ := hfirst
    refine ⟨fun r offset hw => ?_, h⟩
    rw [hw] at hoffset
    obtain rfl : offset = 0 := Option.some.inj hoffset
    exact answer_onlyPressed r.bot
  | _ => exact ⟨trivial, h⟩

theorem poll_acts_once_pressed :
    let item : AttentionRequiredData := { reason := "r", attentionId := some "x", actions := [.approve] }
    let observe : Operation :=
      .observe [⟨none, "k", some item, none, ⟨.info, "t", "b", none⟩⟩] ⟨1, 42, none⟩ 0 ["d"]
    let acted := Machine.play System.pressing [] ⟨.empty, none⟩ [.outbox observe,
      .outbox (.claim "d" 0), .outbox (.confirm "d" 0 7), .begin ⟨42, [7]⟩ 1,
      .answer [(5, pressed)], .next, .admitting, .claimAction, .dispatch (.ok ()), .finish]
    (acted.1.filterMap fun t => t.output.map fun d => (d.update, d.action.request)) =
        [(5, .resolveAttention "telegram:1:5" "x" .approve none)] ∧
      acted.1.Pairwise fun later earlier => ActsOn 1 5 earlier → ¬ ActsOn 1 5 later := by
  exact ⟨by decide +kernel,
    (poll_acts_once (.play (fun _ _ _ _ => step_of_pressing) (.start rfl))).1 1 5⟩

end Agend.Telegram
