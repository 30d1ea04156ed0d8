import Agend.Spool.Sound

/-! What a process owes at each call, and that a call which does its duty keeps what holds of the
world and what the others rely on. -/
namespace Agend.Spool

open Library
open Agend.Runtime hiding Reply

variable {F : Formats} {w w' w'' : World} {s' : Store} {r : ClaudeRequest} {e e' : Entry}
  {kind kind' : Kind} {i j n : Nat} {id : String} {hook : HookData} {name : Name}
  {event old : DriverEvent} {now : Nat} {inserted : Bool} {outcome : Outcome} {x : Receipt}
  {c : Call} {a : Answer}

/-- A hook that is not refused before its event is appended. -/
structure Native (F : Formats) (hook : HookData) : Prop where
  kind : nativeHooks.contains hook.event = true
  parsed : ∃ native, F.parse hook.payload = some native ∧ hook.identified native = true

/-- Directories change under the lock; a record goes after its effect; what is sent, appended or
acknowledged was published; routing changes after an append that inserted the event. -/
def Duty (F : Formats) (i : Nat) (w : World) : Call → Prop
  | .lock j | .tryLock j | .unlock j => j = i
  | .writeCounter kind n => w.lock = some i ∧ (w.dir kind).counter.getD 0 ≤ n
  | .writeRecord kind e => w.lock = some i ∧ e.Valid kind ∧
      e.name.seq ≤ (w.dir kind).counter.getD 0 ∧
      ∀ e' ∈ (w.dir kind).published, e'.name.seq < e.name.seq
  | .remove _ kind name => w.lock = some i ∧
      ∀ e ∈ (w.dir kind).files, e.name = name → Effect w.store e.request
  | .post r => w.Known r
  | .respond _ id outcome =>
      outcome = .reply true → ∃ r, w.sent[id]? = some r ∧ Effect w.store r
  | .appendEvent j event _ => j = i ∧ ∃ r hook, w.Known r ∧ r.operation = .hook hook ∧
      event = hook.toEvent r.instanceId ∧ Native F hook
  | .acknowledge ack _ => ∃ r, w.Known r ∧ ∃ x ∈ r.receipts, ack = x.ack r.instanceId
  | .route j hook | .revokeRouting j hook =>
      j = i ∧ (⟨i, hook.eventId, true⟩ : Attempt) ∈ w.attempts
  | _ => True

/-- The ids that are drawn are new: the one of a hook when its record is published, and the one
of the event of an acknowledgement. -/
def Fresh (w : World) (a : Answer) : Call → Prop
  | .writeRecord _ e => ∀ id, e.request.eventId = some id →
      (∀ e' ∈ w.hooks.published, e'.request.eventId ≠ some id) ∧ w.store.events.get id = none
  | .acknowledge _ _ => ∀ e ∈ w.hooks.published, e.request.eventId ≠ some a.text
  | _ => True

structure Assumed (w : World) (c : Call) (a : Answer) : Prop where
  foreign : ∀ mv ∈ a.moves, mv.Foreign w
  fresh : Fresh (w.outside a.moves) a c

/-! Requests and replies. -/

theorem Sound.post (hw : Sound F w) (hr : w.Known r) :
    Sound F { w with sent := w.sent ++ [r] } where
  dirs := hw.dirs
  gone := hw.gone
  sent q hq := by
    rcases List.mem_append.mp hq with hold | hnew
    · exact hw.sent q hold
    · rw [List.mem_singleton.mp hnew]
      exact hr
  replies x hx hok := by
    obtain ⟨q, hq, he⟩ := hw.replies x hx hok
    have hlt : x.1 < w.sent.length := (List.getElem?_eq_some_iff.mp hq).1
    exact ⟨q, by rw [List.getElem?_append_left hlt]; exact hq, he⟩
  distinct := hw.distinct
  recorded := hw.recorded
  attempted := hw.attempted
  inserted := hw.inserted
  once := hw.once
  confirmations := hw.confirmations
  confirmedOnce := hw.confirmedOnce

theorem rely_post : Rely j w { w with sent := w.sent ++ [r] } where
  lock h := ⟨h, fun _ => rfl⟩
  published _ _ h := h
  effect _ _ h := h
  attempts _ _ := .rfl
  sent id q h := by
    have hlt : id < w.sent.length := (List.getElem?_eq_some_iff.mp h).1
    change (w.sent ++ [r])[id]? = some q
    rw [List.getElem?_append_left hlt]
    exact h

theorem Sound.respond (hw : Sound F w) {request : Nat}
    (ho : outcome = .reply true → ∃ r, w.sent[request]? = some r ∧ Effect w.store r) :
    Sound F { w with replies := (request, outcome) :: w.replies } where
  dirs := hw.dirs
  gone := hw.gone
  sent := hw.sent
  replies x hx hok := by
    rcases List.mem_cons.mp hx with rfl | hx
    · exact ho hok
    · exact hw.replies x hx hok
  distinct := hw.distinct
  recorded := hw.recorded
  attempted := hw.attempted
  inserted := hw.inserted
  once := hw.once
  confirmations := hw.confirmations
  confirmedOnce := hw.confirmedOnce

theorem rely_respond {replies : List (Nat × Outcome)} : Rely j w { w with replies := replies } :=
  ⟨fun h => ⟨h, fun _ => rfl⟩, fun _ _ h => h, fun _ _ h => h, fun _ _ => .rfl, fun _ _ h => h⟩

/-! Records. -/

/-- The directory after a record was published. -/
def Dir.record (d : Dir) (e : Entry) : Dir :=
  { d with files := e :: d.files, published := e :: d.published }

theorem Dir.Sound.record {d : Dir} (hd : d.Sound kind) (hv : e.Valid kind)
    (hc : e.name.seq ≤ d.counter.getD 0) (hlt : ∀ e' ∈ d.published, e'.name.seq < e.name.seq) :
    (d.record e).Sound kind where
  ordered := List.pairwise_cons.mpr ⟨hlt, hd.ordered⟩
  counted := List.forall_mem_cons.mpr ⟨hc, hd.counted⟩
  files := hd.files.cons_cons e
  valid := List.forall_mem_cons.mpr ⟨hv, hd.valid⟩

theorem mem_record (kind' : Kind)
    (he : e' ∈ ((w.setDir kind ((w.dir kind).record e)).dir kind').published) :
    kind' = kind ∧ e' = e ∨ e' ∈ (w.dir kind').published := by
  rw [dir_setDir] at he
  split_ifs at he with hk
  · subst hk
    rcases List.mem_cons.mp he with rfl | he
    · exact .inl ⟨rfl, rfl⟩
    · exact .inr he
  · exact .inr he

theorem mem_record_of_mem (kind' : Kind) (he : e' ∈ (w.dir kind').published) :
    e' ∈ ((w.setDir kind ((w.dir kind).record e)).dir kind').published := by
  rw [dir_setDir]
  split_ifs with hk
  · subst hk
    exact List.mem_cons_of_mem _ he
  · exact he

/-- The id of a hook is not yet the id of an event. -/
theorem Sound.record (hw : Sound F w) (hv : e.Valid kind)
    (hc : e.name.seq ≤ (w.dir kind).counter.getD 0)
    (hlt : ∀ e' ∈ (w.dir kind).published, e'.name.seq < e.name.seq)
    (hfresh : ∀ id, e.request.eventId = some id →
      (∀ e' ∈ w.hooks.published, e'.request.eventId ≠ some id) ∧ w.store.events.get id = none) :
    Sound F (w.setDir kind ((w.dir kind).record e)) := by
  have hnew : ∀ id, e.request.eventId = some id → ∀ old, w.store.events.get id ≠ some old := by
    intro id hid old hold
    rw [(hfresh id hid).2] at hold
    cases hold
  constructor
  case dirs =>
    intro kind'
    rw [dir_setDir]
    split_ifs with hk
    · subst hk
      exact (hw.dirs _).record hv hc hlt
    · exact hw.dirs kind'
  case gone =>
    intro kind' e' he hno
    rw [store_setDir]
    rcases mem_record kind' he with ⟨rfl, rfl⟩ | hold
    · rw [dir_setDir, if_pos rfl] at hno
      exact absurd List.mem_cons_self hno
    · refine hw.gone kind' e' hold fun hfile => hno ?_
      rw [dir_setDir]
      split_ifs with hk
      · subst hk
        exact List.mem_cons_of_mem _ hfile
      · exact hfile
  case sent =>
    intro q hq
    rw [sent_setDir] at hq
    exact (hw.sent q hq).mono fun kind' e' he => mem_record_of_mem kind' he
  case replies =>
    rw [replies_setDir, sent_setDir, store_setDir]
    exact hw.replies
  case distinct =>
    cases kind with
    | acks => exact hw.distinct
    | hooks =>
      refine List.pairwise_cons.mpr ⟨fun e' he heq => ?_, hw.distinct⟩
      cases hop : e.request.operation with
      | hook data =>
        have hid : e.request.eventId = some data.eventId := by simp [ClaudeRequest.eventId, hop]
        exact (hfresh _ hid).1 e' he (heq.symm.trans hid)
      | ack receipts =>
        have hfits := hv.fits
        simp only [ClaudeRequest.fits, hop] at hfits
        cases hfits
  case recorded =>
    intro e' he hook hop old hold
    rw [store_setDir] at hold
    rcases mem_record .hooks he with ⟨-, rfl⟩ | he
    · exact absurd hold (hnew _ (by simp [ClaudeRequest.eventId, hop]) old)
    · exact hw.recorded e' he hook hop old hold
  case attempted =>
    intro x hx
    rw [attempts_setDir] at hx
    obtain ⟨⟨e', he, hid⟩, hold⟩ := hw.attempted x hx
    rw [store_setDir]
    exact ⟨⟨e', mem_record_of_mem .hooks he, hid⟩, hold⟩
  case inserted =>
    intro e' he id hid old hold
    rw [store_setDir] at hold
    rw [attempts_setDir]
    rcases mem_record .hooks he with ⟨-, rfl⟩ | he
    · exact absurd hold (hnew id hid old)
    · exact hw.inserted e' he id hid old hold
  case once =>
    rw [attempts_setDir]
    exact hw.once
  case confirmations =>
    intro ack hack
    rw [confirmations_setDir] at hack
    obtain ⟨hc, e', he, x, hx, heq⟩ := hw.confirmations ack hack
    rw [store_setDir]
    exact ⟨hc, e', mem_record_of_mem .acks he, x, hx, heq⟩
  case confirmedOnce =>
    rw [confirmations_setDir]
    exact hw.confirmedOnce

/-! Events and confirmations. -/

theorem Effect.put {s : Store} (h : Effect s r) :
    Effect { s with events := s.events.put event } r where
  event id hid := by
    obtain ⟨old, hold⟩ := h.event id hid
    by_cases heq : id = event.id
    · exact ⟨event, heq ▸ Table.get_put_self⟩
    · exact ⟨old, (Table.get_put_of_ne heq).trans hold⟩
  confirmed x hx := by
    obtain ⟨hm, hd⟩ := h.confirmed x hx
    exact ⟨hm, hd⟩

/-- The record that a known hook was published with, up to the replayed flag. -/
theorem Sound.known_hook (hw : Sound F w) (hk : w.Known r) (hop : r.operation = .hook hook) :
    ∃ e ∈ w.hooks.published, ∃ b, e.request.instanceId = r.instanceId ∧
      e.request.operation = .hook { hook with replayed := b } := by
  have hid : r.eventId = some hook.eventId := by simp [ClaudeRequest.eventId, hop]
  obtain ⟨e, he, -, hsame⟩ := hw.known_event hk hid
  rcases hsame with rfl | rfl
  · exact ⟨e, he, hook.replayed, rfl, hop⟩
  · refine ⟨e, he, ?_⟩
    rw [ClaudeRequest.instanceId_replay]
    unfold ClaudeRequest.replay at hop
    split at hop
    · rename_i receipts hack
      rw [hack] at hop
      cases hop
    · rename_i data hdata
      cases hop
      exact ⟨data.replayed, rfl, hdata⟩

theorem Sound.eq_of_eventId (hw : Sound F w) (he : e ∈ w.hooks.published)
    (he' : e' ∈ w.hooks.published) (h : e.request.eventId = e'.request.eventId) : e = e' := by
  have hnodup : (w.hooks.published.map (·.request.eventId)).Nodup :=
    List.pairwise_map.mpr hw.distinct
  exact List.inj_on_of_nodup_map hnodup he he' h

/-- An append that found its event. -/
theorem Sound.found (hw : Sound F w) (hk : w.Known r) (hid : r.eventId = some id)
    (hold : w.store.events.get id = some old) :
    Sound F { w with attempts := ⟨i, id, false⟩ :: w.attempts } where
  dirs := hw.dirs
  gone := hw.gone
  sent := hw.sent
  replies := hw.replies
  distinct := hw.distinct
  recorded := hw.recorded
  attempted x hx := by
    rcases List.mem_cons.mp hx with rfl | hx
    · obtain ⟨e, he, hid', -⟩ := hw.known_event hk hid
      exact ⟨⟨e, he, hid'⟩, old, hold⟩
    · exact hw.attempted x hx
  inserted e he id' hid' old' hold' := by
    obtain ⟨p, hp⟩ := hw.inserted e he id' hid' old' hold'
    exact ⟨p, List.mem_cons_of_mem _ hp⟩
  once := hw.once
  confirmations := hw.confirmations
  confirmedOnce := hw.confirmedOnce

/-- An append that inserted its event. -/
theorem Sound.inserts (hw : Sound F w) (hk : w.Known r) (hop : r.operation = .hook hook)
    (hevent : event = hook.toEvent r.instanceId) (hnative : Native F hook)
    (htakes : Store.Takes F.object event) (hnone : w.store.events.get event.id = none) :
    Sound F { w with
      store := { w.store with events := w.store.events.put event }
      attempts := ⟨i, event.id, true⟩ :: w.attempts } := by
  obtain ⟨e0, he0, b, hinstance, hop0⟩ := hw.known_hook hk hop
  have hid0 : e0.request.eventId = some event.id := by
    simp [ClaudeRequest.eventId, hop0, hevent, HookData.toEvent]
  constructor
  case dirs => exact hw.dirs
  case gone => exact fun kind e he hno => (hw.gone kind e he hno).put
  case sent => exact hw.sent
  case replies =>
    intro x hx hok
    obtain ⟨q, hq, he⟩ := hw.replies x hx hok
    exact ⟨q, hq, he.put⟩
  case distinct => exact hw.distinct
  case recorded =>
    intro e he hook' hop' old hold
    have hget : (w.store.events.put event).get hook'.eventId = some old := hold
    rw [Table.get_put] at hget
    split_ifs at hget with hid
    · have hid' : e.request.eventId = some hook'.eventId := by simp [ClaudeRequest.eventId, hop']
      obtain rfl := hw.eq_of_eventId he he0 (hid'.trans ((congrArg some hid).trans hid0.symm))
      obtain rfl := Option.some.inj hget
      obtain rfl : hook' = { hook with replayed := b } :=
        ClaudeOperation.hook.inj (hop'.symm.trans hop0)
      rw [hevent] at htakes ⊢
      constructor
      · rw [hinstance]
        rfl
      · rw [hinstance]
        exact ⟨htakes.ids, htakes.instanceId, htakes.kind, htakes.payload, htakes.object,
          htakes.time⟩
      · exact hnative.kind
      · exact hnative.parsed
    · exact hw.recorded e he hook' hop' old hget
  case attempted =>
    intro x hx
    rcases List.mem_cons.mp hx with rfl | hx
    · exact ⟨⟨e0, he0, hid0⟩, event, Table.get_put_self⟩
    · obtain ⟨hrecord, old, hold⟩ := hw.attempted x hx
      have hne : x.event ≠ event.id := by
        intro heq
        rw [heq, hnone] at hold
        cases hold
      exact ⟨hrecord, old, (Table.get_put_of_ne hne).trans hold⟩
  case inserted =>
    intro e he id hid old hold
    have hget : (w.store.events.put event).get id = some old := hold
    rw [Table.get_put] at hget
    split_ifs at hget with heq
    · subst heq
      exact ⟨i, List.mem_cons_self⟩
    · obtain ⟨p, hp⟩ := hw.inserted e he id hid old hget
      exact ⟨p, List.mem_cons_of_mem _ hp⟩
  case once =>
    rw [List.filter_cons_of_pos (by rfl), List.map_cons, List.nodup_cons]
    refine ⟨fun hmem => ?_, hw.once⟩
    obtain ⟨x, hx, heq⟩ := List.mem_map.mp hmem
    obtain ⟨-, old, hold⟩ := hw.attempted x (List.mem_of_mem_filter hx)
    rw [heq, hnone] at hold
    cases hold
  case confirmations =>
    intro ack hack
    obtain ⟨hc, hrecord⟩ := hw.confirmations ack hack
    exact ⟨⟨hc.message, hc.delivery⟩, hrecord⟩
  case confirmedOnce => exact hw.confirmedOnce

theorem rely_append (hij : j ≠ i) (heffect : ∀ r, Effect w.store r → Effect s' r) :
    Rely j w { w with store := s', attempts := ⟨i, id, inserted⟩ :: w.attempts } where
  lock h := ⟨h, fun _ => rfl⟩
  published _ _ h := h
  effect r _ h := heffect r h
  attempts x hx := by
    constructor
    · intro hmem
      rcases List.mem_cons.mp hmem with rfl | hmem
      · exact absurd hx.symm hij
      · exact hmem
    · exact List.mem_cons_of_mem _
  sent _ _ h := h

/-- An acknowledgement is one of the calls that spare what was published. -/
theorem spares_acknowledge {ack : ClaudeAck} {eventId : String} {result : ClaudeAckResult}
    (hfresh : ∀ e ∈ w.hooks.published, e.request.eventId ≠ some eventId)
    (h : w.store.acknowledge ack eventId now = .ok (s', result)) : Spares w s' := by
  have hs : Spares w (w.store.call (.acknowledge ack eventId now)).1 := spares_call hfresh
  have hcall : (w.store.call (.acknowledge ack eventId now)).1 = s' := by
    simp [Store.call, Store.exec, h, Except.map]
  exact hcall ▸ hs

theorem Sound.confirms (hw : Sound F w) (hk : w.Known r) (hx : x ∈ r.receipts)
    (hconfirmed : Confirmed w.store (x.ack r.instanceId))
    (hnew : x.ack r.instanceId ∉ w.confirmations) :
    Sound F { w with confirmations := x.ack r.instanceId :: w.confirmations } where
  dirs := hw.dirs
  gone := hw.gone
  sent := hw.sent
  replies := hw.replies
  distinct := hw.distinct
  recorded := hw.recorded
  attempted := hw.attempted
  inserted := hw.inserted
  once := hw.once
  confirmations ack hack := by
    rcases List.mem_cons.mp hack with rfl | hack
    · obtain ⟨e, he, hmem, hinstance⟩ := hw.known_receipt hk hx
      exact ⟨hconfirmed, e, he, x, hmem, by rw [hinstance]⟩
    · exact hw.confirmations ack hack
  confirmedOnce := List.nodup_cons.mpr ⟨hnew, hw.confirmedOnce⟩

/-! The rule for one call. -/

theorem Sound.appends (hw : Sound F w) (hd : Duty F i w (.appendEvent i event now))
    (h : w.store.appendDriverEvent F.object event now = .ok (s', inserted)) :
    Sound F { w with store := s', attempts := ⟨i, event.id, inserted⟩ :: w.attempts } ∧
      ∀ j, j ≠ i → Rely j w
        { w with store := s', attempts := ⟨i, event.id, inserted⟩ :: w.attempts } := by
  obtain ⟨-, r, hook, hk, hop, hevent, hnative⟩ := hd
  have hid : r.eventId = some event.id := by
    simp [ClaudeRequest.eventId, hop, hevent, HookData.toEvent]
  obtain ⟨htakes, hor⟩ := Store.appendDriverEvent_eq_ok h
  rcases hor with ⟨rfl, rfl, old, hold, -⟩ | ⟨rfl, hnone, rfl⟩
  · exact ⟨hw.found hk hid hold, fun j hij => rely_append hij fun _ he => he⟩
  · exact ⟨hw.inserts hk hop hevent hnative htakes hnone,
      fun j hij => rely_append hij fun _ he => he.put⟩

theorem Sound.acknowledges (hw : Sound F w) {ack : ClaudeAck} {result : ClaudeAckResult}
    (hd : Duty F i w (.acknowledge ack now)) (hf : Fresh w a (.acknowledge ack now))
    (h : w.store.acknowledge ack a.text now = .ok (s', result)) {confirmations : List ClaudeAck}
    (hlist : confirmations = w.confirmations ∨
      result = .confirmed ∧ confirmations = ack :: w.confirmations) :
    Sound F { w with store := s', confirmations := confirmations } ∧
      Rely j w { w with store := s', confirmations := confirmations } := by
  obtain ⟨r, hk, x, hx, rfl⟩ := hd
  have hspares := spares_acknowledge hf h
  have hrely : Rely j w { w with store := s', confirmations := confirmations } :=
    ⟨fun hl => ⟨hl, fun _ => rfl⟩, fun _ _ he => he, fun _ hk he => hspares.effect hw hk he,
      fun _ _ => .rfl, fun _ _ hs => hs⟩
  refine ⟨?_, hrely⟩
  rcases hlist with rfl | ⟨hresult, rfl⟩
  · exact hw.spares hspares
  · obtain ⟨hconfirmed, hfirst⟩ := confirmed_of_acknowledge h
    refine (hw.spares hspares).confirms hk hx hconfirmed fun hmem => ?_
    exact hfirst hresult (hw.confirmations _ hmem).1

/-- A call in the world that it finds keeps what holds, and what the others rely on. -/
theorem Sound.perform (hw : Sound F w) (hd : Duty F i w c) (hf : Fresh w a c) :
    Sound F (w.perform F a c).2 ∧ ∀ j, j ≠ i → Rely j w (w.perform F a c).2 := by
  have hsame : Sound F w ∧ ∀ j, j ≠ i → Rely j w w := ⟨hw, fun _ _ => .refl⟩
  cases c with
  | lock process =>
    simp only [World.perform]
    split
    · rename_i hfree
      exact ⟨hw.withLock _, fun j hij => rely_withLock (by rw [hfree]; intro h; cases h)⟩
    · exact hsame
  | tryLock process =>
    simp only [World.perform]
    split
    · rename_i hfree
      exact ⟨hw.withLock _, fun j hij => rely_withLock (by rw [hfree]; intro h; cases h)⟩
    · exact hsame
  | unlock process =>
    obtain rfl : process = i := hd
    simp only [World.perform]
    split_ifs with hmine
    · refine ⟨hw.withLock _, fun j hij => rely_withLock fun h => ?_⟩
      exact absurd (Option.some.inj (h.symm.trans hmine)) hij
    · exact hsame
  | writeCounter kind n =>
    exact ⟨hw.writeCounter hd.2, fun j hij => rely_setDir hd.1 hij fun _ he => he⟩
  | writeRecord kind e =>
    obtain ⟨hl, hv, hc, hlt⟩ := hd
    exact ⟨hw.record hv hc hlt hf,
      fun j hij => rely_setDir hl hij fun _ he => List.mem_cons_of_mem _ he⟩
  | remove process kind name =>
    simp only [World.perform]
    split_ifs
    · exact ⟨hw.remove hd.2, fun j hij => rely_setDir hd.1 hij fun _ he => he⟩
    · exact hsame
  | post r => exact ⟨hw.post hd, fun _ _ => rely_post⟩
  | respond process request outcome => exact ⟨hw.respond hd, fun _ _ => rely_respond⟩
  | appendEvent process event now =>
    obtain rfl : process = i := hd.1
    simp only [World.perform]
    split
    · rename_i happend
      exact hw.appends hd happend
    · exact hsame
  | acknowledge ack now =>
    simp only [World.perform]
    split
    · rename_i hack
      exact ⟨(hw.acknowledges (j := i) hd hf hack (.inr ⟨rfl, rfl⟩)).1,
        fun j _ => (hw.acknowledges hd hf hack (.inr ⟨rfl, rfl⟩)).2⟩
    · rename_i hack
      exact ⟨(hw.acknowledges (j := i) hd hf hack (.inl rfl)).1,
        fun j _ => (hw.acknowledges hd hf hack (.inl rfl)).2⟩
    · exact hsame
  | read kind name =>
    simp only [World.perform]
    split <;> exact hsame
  | await request =>
    simp only [World.perform]
    split <;> exact hsame
  | _ => exact hsame

/-- A duty that is done is done wherever the rest of the daemon moved the store. -/
theorem Duty.spares (hd : Duty F i w c) (hw : Sound F w) (hs : Spares w s') :
    Duty F i { w with store := s' } c := by
  cases c with
  | remove process kind name =>
    refine ⟨hd.1, fun e he hname => ?_⟩
    have hpublished := (hw.dirs kind).files.subset he
    exact hs.effect hw (known_of_mem hpublished) (hd.2 e he hname)
  | respond process request outcome =>
    intro ho
    obtain ⟨r, hr, he⟩ := hd ho
    exact ⟨r, hr, hs.effect hw (hw.sent r (List.mem_of_getElem? hr)) he⟩
  | _ => exact hd

/-- A call finds the world that the rest of the daemon made, and either does what it is for there
or leaves it so. -/
theorem exec_cases : w.exec F a c = (w.outside a.moves).perform F a c ∨
    ∃ reason, (w.exec F a c).1 = .error reason ∧ c.certain = false ∧
      ((w.exec F a c).2 = w.outside a.moves ∨
        c.lands = true ∧ (w.exec F a c).2 = ((w.outside a.moves).perform F a c).2) := by
  unfold World.exec
  split
  · rename_i reason hfault
    by_cases hc : c.certain = true
    · simp [hc]
    · refine .inr ⟨reason, ?_, by simpa using hc, ?_⟩
      · simp [hc]
      · by_cases hl : (a.landed && c.lands) = true
        · simp only [hc, hl, if_true]
          exact .inr ⟨(Bool.and_eq_true_iff.mp hl).2, rfl⟩
        · simp only [hc, hl]
          exact .inl rfl
  · exact .inl rfl

theorem Sound.exec (hw : Sound F w) (hd : Duty F i w c) (ha : Assumed w c a) :
    Sound F (w.exec F a c).2 ∧ ∀ j, j ≠ i → Rely j w (w.exec F a c).2 := by
  have hmoved := fun j => hw.outside (i := j) ha.foreign
  have hfound : Sound F (w.outside a.moves) := (hmoved i).1
  have hduty : Duty F i (w.outside a.moves) c := by
    obtain ⟨s', heq, hs⟩ := spares_outside ha.foreign
    rw [heq]
    exact hd.spares hw hs
  obtain ⟨hsound, hrely⟩ := hfound.perform hduty ha.fresh
  rcases exec_cases (F := F) (w := w) (a := a) (c := c) with heq | ⟨-, -, -, heq | ⟨-, heq⟩⟩
  · rw [heq]
    exact ⟨hsound, fun j hij => (hmoved j).2.trans (hrely j hij)⟩
  · rw [heq]
    exact ⟨hfound, fun j _ => (hmoved j).2⟩
  · rw [heq]
    exact ⟨hsound, fun j hij => (hmoved j).2.trans (hrely j hij)⟩

end Agend.Spool
