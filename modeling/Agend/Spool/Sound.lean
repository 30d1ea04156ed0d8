import Mathlib.Algebra.Group.Nat.Defs
import Agend.Spool.Programs

/-! What holds of the files, the requests and the store, whoever runs, and that each call keeps
it. -/
namespace Agend.Spool

open Library
open Agend.Runtime hiding Reply

variable {F : Formats} {w w' : World} {s s' : Store} {r : ClaudeRequest} {e e' : Entry}
  {kind kind' : Kind} {d : Dir} {i j : Nat} {id : String} {hook : HookData} {mv : Move}
  {moves : List Move}

namespace ClaudeRequest

def eventId (r : ClaudeRequest) : Option String :=
  match r.operation with
  | .hook data => some data.eventId
  | .ack _ => none

def receipts (r : ClaudeRequest) : List Receipt :=
  match r.operation with
  | .hook _ => []
  | .ack receipts => receipts

variable {r : ClaudeRequest}

@[simp] theorem eventId_replay : r.replay.eventId = r.eventId := by
  obtain ⟨requestId, instanceId, operation⟩ := r
  cases operation <;> rfl

@[simp] theorem receipts_replay : r.replay.receipts = r.receipts := by
  obtain ⟨requestId, instanceId, operation⟩ := r
  cases operation <;> rfl

@[simp] theorem instanceId_replay : r.replay.instanceId = r.instanceId := by
  unfold replay
  split <;> rfl

@[simp] theorem fits_replay : r.replay.fits kind = r.fits kind := by
  obtain ⟨requestId, instanceId, operation⟩ := r
  cases operation <;> cases kind <;> rfl

end ClaudeRequest

def Entry.request (e : Entry) : ClaudeRequest := e.record.request

/-- The effect of a request is in the store: its event exists, or what it acknowledges is
confirmed. -/
structure Effect (s : Store) (r : ClaudeRequest) : Prop where
  event : ∀ id, r.eventId = some id → ∃ old, s.events.get id = some old
  confirmed : ∀ x ∈ r.receipts, Confirmed s (x.ack r.instanceId)

@[simp] theorem effect_replay : Effect s r.replay ↔ Effect s r := by
  constructor
  · rintro ⟨h, h'⟩
    exact ⟨by simpa using h, by simpa using h'⟩
  · rintro ⟨h, h'⟩
    exact ⟨by simpa using h, by simpa using h'⟩

/-- An entry of a directory: a hook, or one receipt. -/
structure Entry.Valid (e : Entry) (kind : Kind) : Prop where
  seq : e.name.seq < 2 ^ 64
  version : e.record.version = 1
  fits : e.request.fits kind = true
  single : e.request.receipts.length ≤ 1

/-- Numbers grow in the order of publication and are counted, and a file was published. -/
structure Dir.Sound (d : Dir) (kind : Kind) : Prop where
  ordered : d.published.Pairwise fun later earlier => earlier.name.seq < later.name.seq
  counted : ∀ e ∈ d.published, e.name.seq ≤ d.counter.getD 0
  files : d.files.Sublist d.published
  valid : ∀ e ∈ d.published, e.Valid kind

/-- The request is the one of a published record, or its replay. -/
def World.Known (w : World) (r : ClaudeRequest) : Prop :=
  ∃ kind, ∃ e ∈ (w.dir kind).published, r = e.request ∨ r = e.request.replay

/-- A hook that the daemon accepts, and that is stored as `old`. -/
structure Recorded (F : Formats) (r : ClaudeRequest) (hook : HookData) (old : DriverEvent) :
    Prop where
  same : { hook.toEvent r.instanceId with replayed := old.replayed } = old
  takes : Store.Takes F.object (hook.toEvent r.instanceId)
  native : nativeHooks.contains hook.event = true
  parsed : ∃ native, F.parse hook.payload = some native ∧ hook.identified native = true

structure Sound (F : Formats) (w : World) : Prop where
  dirs : ∀ kind, (w.dir kind).Sound kind
  /-- A file is removed only after its effect. -/
  gone : ∀ kind, ∀ e ∈ (w.dir kind).published, e ∉ (w.dir kind).files → Effect w.store e.request
  sent : ∀ r ∈ w.sent, w.Known r
  replies : ∀ x ∈ w.replies, x.2 = .reply true → ∃ r, w.sent[x.1]? = some r ∧ Effect w.store r
  distinct : w.hooks.published.Pairwise fun e e' => e.request.eventId ≠ e'.request.eventId
  recorded : ∀ e ∈ w.hooks.published, ∀ hook, e.request.operation = .hook hook →
    ∀ old, w.store.events.get hook.eventId = some old → Recorded F e.request hook old
  /-- Appends are of published hooks, whose events are stored since. -/
  attempted : ∀ x ∈ w.attempts, (∃ e ∈ w.hooks.published, e.request.eventId = some x.event) ∧
    ∃ old, w.store.events.get x.event = some old
  /-- An event that is stored was inserted by one append. -/
  inserted : ∀ e ∈ w.hooks.published, ∀ id, e.request.eventId = some id →
    ∀ old, w.store.events.get id = some old → ∃ i, (⟨i, id, true⟩ : Attempt) ∈ w.attempts
  once : ((w.attempts.filter (·.inserted)).map (·.event)).Nodup
  confirmations : ∀ ack ∈ w.confirmations, Confirmed w.store ack ∧
    ∃ e ∈ w.acks.published, ∃ x ∈ e.request.receipts, ack = x.ack e.request.instanceId
  confirmedOnce : w.confirmations.Nodup

/-! The directories. -/

@[simp] theorem dir_setDir :
    (w.setDir kind d).dir kind' = if kind' = kind then d else w.dir kind' := by
  cases kind <;> cases kind' <;> rfl

@[simp] theorem store_setDir : (w.setDir kind d).store = w.store := by
  cases kind <;> rfl

@[simp] theorem sent_setDir : (w.setDir kind d).sent = w.sent := by
  cases kind <;> rfl

@[simp] theorem replies_setDir : (w.setDir kind d).replies = w.replies := by
  cases kind <;> rfl

@[simp] theorem attempts_setDir : (w.setDir kind d).attempts = w.attempts := by
  cases kind <;> rfl

@[simp] theorem confirmations_setDir : (w.setDir kind d).confirmations = w.confirmations := by
  cases kind <;> rfl

@[simp] theorem lock_setDir : (w.setDir kind d).lock = w.lock := by
  cases kind <;> rfl

theorem Dir.Sound.eq_of_name (hd : d.Sound kind) (he : e ∈ d.published) (he' : e' ∈ d.published)
    (h : e.name = e'.name) : e = e' := by
  have hne : d.published.Pairwise fun a b => a.name.seq ≠ b.name.seq :=
    hd.ordered.imp fun hab => by omega
  have hnodup : (d.published.map (·.name.seq)).Nodup := List.pairwise_map.mpr hne
  exact List.inj_on_of_nodup_map hnodup he he' (by rw [h])

/-! What the rest of the daemon does to the store. -/

/-- No event of a published hook and no message of a published receipt is pruned, and other events
have ids of their own. -/
def Move.Foreign (w : World) : Move → Prop
  | .call (.acknowledge _ eventId _) => ∀ e ∈ w.hooks.published, e.request.eventId ≠ some eventId
  | .call _ => True
  | .append event => ∀ e ∈ w.hooks.published, e.request.eventId ≠ some event.id
  | .prune events messages =>
    (∀ e ∈ w.hooks.published, ∀ id, e.request.eventId = some id → id ∉ events) ∧
    ∀ e ∈ w.acks.published, ∀ x ∈ e.request.receipts, x.messageId ∉ messages

/-- The store keeps the events of published hooks as they are, and what is confirmed. -/
structure Spares (w : World) (s' : Store) : Prop where
  events : ∀ e ∈ w.hooks.published, ∀ id, e.request.eventId = some id →
    s'.events.get id = w.store.events.get id
  confirmed : ∀ e ∈ w.acks.published, ∀ x ∈ e.request.receipts,
    Confirmed w.store (x.ack e.request.instanceId) → Confirmed s' (x.ack e.request.instanceId)

theorem Spares.refl : Spares w w.store :=
  ⟨fun _ _ _ _ => rfl, fun _ _ _ _ h => h⟩

theorem spares_call {op : Operation} (h : (Move.call op).Foreign w) :
    Spares w (w.store.call op).1 := by
  have hs : runtime.step w.store op (w.store.call op).1 (w.store.call op).2 := rfl
  refine ⟨fun e he id hid => ?_, fun e he x hx hc => hc.step hs⟩
  rcases events_step hs with heq | ⟨ack, eventId, now, rfl, hadds⟩
  · rw [heq]
  · rcases hadds with heq | ⟨event, hevent, -, heq⟩
    · rw [heq]
    · have hne : id ≠ event.id := by
        rintro rfl
        exact h e he (hid.trans (congrArg some hevent))
      rw [heq, Table.get_put_of_ne hne]

theorem spares_append {event : DriverEvent} (h : (Move.append event).Foreign w) :
    Spares w (appended w.store event) := by
  unfold appended
  split
  · exact .refl
  · refine ⟨fun e he id hid => Table.get_put_of_ne fun heq => ?_, fun _ _ _ _ hc => ?_⟩
    · exact h e he (hid.trans (congrArg some heq))
    · exact ⟨hc.message, hc.delivery⟩

theorem get_filter_of {α : Type} {key : α → String} {t : Table key} {p : α → Bool} {k : String}
    (h : ∀ a, key a = k → p a = true) : (t.filter p).get k = t.get k := by
  rw [Table.get_filter]
  cases hget : t.get k with
  | none => rfl
  | some a => simp [Option.filter, h a (Table.get_eq_some.mp hget).2]

theorem spares_prune {events messages : List String} (h : (Move.prune events messages).Foreign w) :
    Spares w (pruned w.store events messages) := by
  obtain ⟨hevents, hmessages⟩ := h
  refine ⟨fun e he id hid => ?_, fun e he x hx hc => ?_⟩
  · have hno := hevents e he id hid
    exact get_filter_of fun a ha => by simpa [ha] using hno
  · have hno := hmessages e he x hx
    obtain ⟨⟨m, hm, hstate⟩, d, a, hd, ha⟩ := hc
    refine ⟨⟨m, ?_, hstate⟩, d, a, ?_, ha⟩
    · exact (get_filter_of fun a ha => by
        simpa [ha, Receipt.ack] using hno).trans hm
    · exact (get_filter_of fun a ha => by
        simpa [ha, Receipt.ack] using hno).trans hd

theorem spares_move (h : mv.Foreign w) :
    ∃ s', w.move mv = { w with store := s' } ∧ Spares w s' := by
  cases mv with
  | call op => exact ⟨_, rfl, spares_call h⟩
  | append event => exact ⟨_, rfl, spares_append h⟩
  | prune events messages => exact ⟨_, rfl, spares_prune h⟩

theorem Spares.trans {s'' : Store} (h : Spares w s') (h' : Spares { w with store := s' } s'') :
    Spares w s'' :=
  ⟨fun e he id hid => (h'.events e he id hid).trans (h.events e he id hid),
    fun e he x hx hc => h'.confirmed e he x hx (h.confirmed e he x hx hc)⟩

theorem spares_outside (h : ∀ mv ∈ moves, mv.Foreign w) :
    ∃ s', w.outside moves = { w with store := s' } ∧ Spares w s' := by
  induction moves generalizing w with
  | nil => exact ⟨_, rfl, .refl⟩
  | cons mv rest ih =>
    obtain ⟨s₁, hmove, hspares⟩ := spares_move (h mv List.mem_cons_self)
    obtain ⟨s₂, hrest, hspares'⟩ := ih (w := { w with store := s₁ })
      fun mv' hmem => h mv' (List.mem_cons_of_mem _ hmem)
    refine ⟨s₂, ?_, hspares.trans hspares'⟩
    change (w.move mv).outside rest = _
    rw [hmove, hrest]

/-! Calls. -/

variable {w'' : World} {n : Nat} {name : Name} {event : DriverEvent} {now : Nat} {inserted : Bool}
  {outcome : Outcome} {x : Receipt}

/-! Published records. -/

theorem Sound.known_event (hw : Sound F w) (hk : w.Known r) (hid : r.eventId = some id) :
    ∃ e ∈ w.hooks.published, e.request.eventId = some id ∧
      (r = e.request ∨ r = e.request.replay) := by
  obtain ⟨kind, e, he, hr⟩ := hk
  have hid' : e.request.eventId = some id := by
    rcases hr with rfl | rfl
    · exact hid
    · simpa using hid
  cases kind with
  | hooks => exact ⟨e, he, hid', hr⟩
  | acks =>
    have hfits := ((hw.dirs .acks).valid e he).fits
    unfold ClaudeRequest.eventId at hid'
    unfold ClaudeRequest.fits at hfits
    split at hid'
    · rename_i data hop
      rw [hop] at hfits
      cases hfits
    · cases hid'

theorem Sound.known_receipt (hw : Sound F w) (hk : w.Known r) (hx : x ∈ r.receipts) :
    ∃ e ∈ w.acks.published, x ∈ e.request.receipts ∧ e.request.instanceId = r.instanceId := by
  obtain ⟨kind, e, he, hr⟩ := hk
  have hx' : x ∈ e.request.receipts ∧ e.request.instanceId = r.instanceId := by
    rcases hr with rfl | rfl
    · exact ⟨hx, rfl⟩
    · exact ⟨by simpa using hx, by simp⟩
  cases kind with
  | acks => exact ⟨e, he, hx'⟩
  | hooks =>
    have hfits := ((hw.dirs .hooks).valid e he).fits
    have hmem := hx'.1
    unfold ClaudeRequest.receipts at hmem
    unfold ClaudeRequest.fits at hfits
    split at hmem
    · cases hmem
    · rename_i receipts hop
      rw [hop] at hfits
      cases hfits

theorem known_of_mem (he : e ∈ (w.dir kind).published) : w.Known e.request :=
  ⟨kind, e, he, .inl rfl⟩

theorem World.Known.mono (h : w.Known r)
    (hp : ∀ kind, ∀ e ∈ (w.dir kind).published, e ∈ (w'.dir kind).published) : w'.Known r := by
  obtain ⟨kind, e, he, hr⟩ := h
  exact ⟨kind, e, hp kind e he, hr⟩

/-! What a process relies on. -/

/-- The others leave the directories alone while the process has the lock; they keep what was
published, sent and done, and make no appends in its name. -/
structure Rely (i : Nat) (w w' : World) : Prop where
  lock : w.lock = some i → w'.lock = some i ∧ ∀ kind, w'.dir kind = w.dir kind
  published : ∀ kind, ∀ e ∈ (w.dir kind).published, e ∈ (w'.dir kind).published
  effect : ∀ r, w.Known r → Effect w.store r → Effect w'.store r
  attempts : ∀ x : Attempt, x.process = i → (x ∈ w'.attempts ↔ x ∈ w.attempts)
  sent : ∀ (id : Nat) (r : ClaudeRequest), w.sent[id]? = some r → w'.sent[id]? = some r

theorem Rely.refl : Rely i w w :=
  ⟨fun h => ⟨h, fun _ => rfl⟩, fun _ _ h => h, fun _ _ h => h, fun _ _ => .rfl, fun _ _ h => h⟩

theorem Rely.trans (h : Rely i w w') (h' : Rely i w' w'') : Rely i w w'' where
  lock hl := by
    obtain ⟨hl', hd⟩ := h.lock hl
    obtain ⟨hl'', hd'⟩ := h'.lock hl'
    exact ⟨hl'', fun kind => (hd' kind).trans (hd kind)⟩
  published kind e he := h'.published kind e (h.published kind e he)
  effect r hk he := h'.effect r (hk.mono h.published) (h.effect r hk he)
  attempts x hx := (h'.attempts x hx).trans (h.attempts x hx)
  sent id r hr := h'.sent id r (h.sent id r hr)

/-! The store changes. -/

theorem Spares.effect (hw : Sound F w) (hs : Spares w s') (hk : w.Known r)
    (he : Effect w.store r) : Effect s' r := by
  refine ⟨fun id hid => ?_, fun x hx => ?_⟩
  · obtain ⟨e, hmem, hid', -⟩ := hw.known_event hk hid
    obtain ⟨old, hold⟩ := he.event id hid
    exact ⟨old, (hs.events e hmem id hid').trans hold⟩
  · obtain ⟨e, hmem, hx', hinstance⟩ := hw.known_receipt hk hx
    have := hs.confirmed e hmem x hx'
    rw [hinstance] at this
    exact this (he.confirmed x hx)

theorem Sound.spares (hw : Sound F w) (hs : Spares w s') : Sound F { w with store := s' } where
  dirs := hw.dirs
  gone kind e he hno := hs.effect hw (known_of_mem he) (hw.gone kind e he hno)
  sent := hw.sent
  replies x hx hok := by
    obtain ⟨r, hr, he⟩ := hw.replies x hx hok
    exact ⟨r, hr, hs.effect hw (hw.sent r (List.mem_of_getElem? hr)) he⟩
  distinct := hw.distinct
  recorded e he hook hop old hold :=
    hw.recorded e he hook hop old <|
      (hs.events e he hook.eventId (by simp [ClaudeRequest.eventId, hop])).symm.trans hold
  attempted x hx := by
    obtain ⟨⟨e, he, hid⟩, old, hold⟩ := hw.attempted x hx
    exact ⟨⟨e, he, hid⟩, old, (hs.events e he x.event hid).trans hold⟩
  inserted e he id hid old hold :=
    hw.inserted e he id hid old ((hs.events e he id hid).symm.trans hold)
  once := hw.once
  confirmations ack hack := by
    obtain ⟨hc, e, he, x, hx, rfl⟩ := hw.confirmations ack hack
    exact ⟨hs.confirmed e he x hx hc, e, he, x, hx, rfl⟩
  confirmedOnce := hw.confirmedOnce

theorem Sound.rely_spares (hw : Sound F w) (hs : Spares w s') :
    Rely i w { w with store := s' } :=
  ⟨fun h => ⟨h, fun _ => rfl⟩, fun _ _ h => h, fun _ hk he => hs.effect hw hk he,
    fun _ _ => .rfl, fun _ _ h => h⟩

theorem Sound.outside {moves : List Move} (hw : Sound F w) (h : ∀ mv ∈ moves, mv.Foreign w) :
    Sound F (w.outside moves) ∧ Rely i w (w.outside moves) := by
  obtain ⟨s', heq, hs⟩ := spares_outside h
  rw [heq]
  exact ⟨hw.spares hs, hw.rely_spares hs⟩

/-! The lock. -/

theorem Sound.withLock (hw : Sound F w) (lock : Option Nat) : Sound F { w with lock := lock } :=
  ⟨hw.dirs, hw.gone, hw.sent, hw.replies, hw.distinct, hw.recorded, hw.attempted, hw.inserted,
    hw.once, hw.confirmations, hw.confirmedOnce⟩

/-- Only the holder of the lock loses it. -/
theorem rely_withLock {lock : Option Nat} (h : w.lock = some j → lock = some j) :
    Rely j w { w with lock := lock } :=
  ⟨fun hl => ⟨h hl, fun _ => rfl⟩, fun _ _ h => h, fun _ _ h => h, fun _ _ => .rfl, fun _ _ h => h⟩

/-! The files. -/

/-- A directory changes while the process `i` has the lock. -/
theorem rely_setDir (hl : w.lock = some i) (hj : j ≠ i)
    (hp : ∀ e ∈ (w.dir kind).published, e ∈ d.published) : Rely j w (w.setDir kind d) where
  lock h := absurd (Option.some.inj (h.symm.trans hl)) hj
  published kind' e he := by
    rw [dir_setDir]
    split_ifs with hk
    · exact hp e (hk ▸ he)
    · exact he
  effect r _ h := by simpa using h
  attempts x _ := by simp
  sent id r h := by simpa using h

/-- A directory whose published records stay, and whose missing files had their effect. -/
theorem Sound.setDir (hw : Sound F w) (hd : d.Sound kind)
    (hp : d.published = (w.dir kind).published)
    (hgone : ∀ e ∈ d.published, e ∉ d.files → Effect w.store e.request) :
    Sound F (w.setDir kind d) := by
  have hdir : ∀ kind', ((w.setDir kind d).dir kind').published = (w.dir kind').published := by
    intro kind'
    rw [dir_setDir]
    split_ifs with hk
    · rw [hp, hk]
    · rfl
  have hhooks : (w.setDir kind d).hooks.published = w.hooks.published := hdir .hooks
  have hacks : (w.setDir kind d).acks.published = w.acks.published := hdir .acks
  refine ⟨fun kind' => ?_, fun kind' e he hno => ?_, fun r hr => ?_, ?_, ?_, ?_, ?_, ?_, ?_, ?_, ?_⟩
  · rw [dir_setDir]
    split_ifs with hk
    · exact hk ▸ hd
    · exact hw.dirs kind'
  · rw [store_setDir]
    rw [dir_setDir] at he hno
    split_ifs at he hno with hk
    · exact hgone e he hno
    · exact hw.gone kind' e he hno
  · rw [sent_setDir] at hr
    exact (hw.sent r hr).mono fun kind' e he => by rw [hdir]; exact he
  · rw [replies_setDir, sent_setDir, store_setDir]
    exact hw.replies
  · rw [hhooks]
    exact hw.distinct
  · rw [hhooks, store_setDir]
    exact hw.recorded
  · rw [hhooks, store_setDir, attempts_setDir]
    exact hw.attempted
  · rw [hhooks, store_setDir, attempts_setDir]
    exact hw.inserted
  · rw [attempts_setDir]
    exact hw.once
  · rw [hacks, store_setDir, confirmations_setDir]
    exact hw.confirmations
  · rw [confirmations_setDir]
    exact hw.confirmedOnce

theorem Sound.writeCounter (hw : Sound F w) (hn : (w.dir kind).counter.getD 0 ≤ n) :
    Sound F (w.setDir kind { w.dir kind with counter := some n }) := by
  have hd := hw.dirs kind
  exact hw.setDir ⟨hd.ordered, fun e he => (hd.counted e he).trans hn, hd.files, hd.valid⟩ rfl
    (hw.gone kind)

theorem Sound.remove (hw : Sound F w)
    (h : ∀ e ∈ (w.dir kind).files, e.name = name → Effect w.store e.request) :
    Sound F (w.setDir kind { w.dir kind with
      files := (w.dir kind).files.filter (·.name ≠ name) }) := by
  have hd := hw.dirs kind
  refine hw.setDir ⟨hd.ordered, hd.counted, List.filter_sublist.trans hd.files, hd.valid⟩ rfl ?_
  intro e he hno
  by_cases hfile : e ∈ (w.dir kind).files
  · refine h e hfile ?_
    by_contra hne
    exact hno (List.mem_filter.mpr ⟨hfile, by simpa using hne⟩)
  · exact hw.gone kind e he hfile

end Agend.Spool
