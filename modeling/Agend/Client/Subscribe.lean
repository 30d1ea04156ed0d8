import Agend.Client.View
import Mathlib.Data.List.Infix

/-! A subscription continues after its cursor without a gap and without a repetition. -/
namespace Agend.Client

/-- A receiver of the broadcast channel: the number of the message it reads next. -/
structure Receiver where
  next : Nat
  deriving DecidableEq

inductive Received where
  | event (data : EventData)
  | empty
  | lagged
  deriving DecidableEq

/-- In order and once, or lagged behind what the channel keeps. -/
def Receiver.recv (r : Receiver) (sent : List EventData) : Received :=
  if r.next + retainedEvents < sent.length then .lagged
  else match sent[r.next]? with
    | some data => .event data
    | none => .empty

/-- A subscription that can continue: the events after its cursor, then the live ones. -/
structure Subscription where
  backlog : List EventData
  live : Receiver
  deriving DecidableEq

namespace Fleet

/-- The id of the oldest retained event, or the next id. -/
def oldest (f : Fleet) : Nat :=
  match f.log.head? with
  | some data => data.eventId
  | none => f.latest + 1

/-- From "oldest retained - 1" to the newest id. -/
def continues (f : Fleet) (after : Nat) : Bool :=
  f.oldest ≤ min (after + 1) u64Max && after ≤ f.latest

/-- The events retained after `after`, and a receiver of the later ones. -/
def subscription (f : Fleet) (after : Nat) : Subscription :=
  ⟨f.log.filter (after < ·.eventId), ⟨f.live.length⟩⟩

def subscribe (f : Fleet) : Option Nat → Except String Subscription
  | none => .ok (f.subscription 0)
  | some after =>
    if f.continues after then .ok (f.subscription after)
    else .error <| s!"cannot continue after event {after}: this daemon has events {f.oldest} to " ++
      s!"{f.latest}; fetch the fleet view again"

/-- What the log and the channel hold of the events since boot. -/
structure Numbered (f : Fleet) : Prop where
  ids : f.live.map (·.eventId) = List.range' (f.base + 1) f.live.length
  latest : f.latest = f.base + f.live.length
  log : f.log = f.live.drop (f.live.length - retainedEvents)

variable {f f' : Fleet} {ops : List Operation} {c : Nat}

theorem numbered_new {bootUnixMs : Nat} : (new bootUnixMs).Numbered :=
  ⟨rfl, rfl, List.drop_nil.symm⟩

theorem Numbered.push (h : f.Numbered) (event : DaemonEvent) : (f.push event).Numbered where
  ids := by
    rw [live_push, List.map_append, h.ids, List.length_append, List.length_singleton,
      List.range'_1_concat, h.latest, base_push]
    simp only [List.map_singleton]
    congr 2
    omega
  latest := by
    rw [latest_push, h.latest, live_push, List.length_append, base_push]
    rfl
  log := by
    have hlen : (f.live.drop (f.live.length - retainedEvents)).length =
        min f.live.length retainedEvents := by
      rw [List.length_drop]
      omega
    have hpos := retainedEvents_pos
    rw [log_push, h.log, live_push, List.length_append, List.length_append, List.length_singleton,
      hlen, ← List.drop_append_of_le_length (Nat.sub_le _ _)]
    split_ifs with hfull
    · rw [List.tail_drop]
      congr 1
      omega
    · congr 1
      omega

theorem Numbered.run (h : f.Numbered) : (f.run ops).Numbered := by
  refine run_log (P := Numbered) (fun _ event h => h.push event) ?_ ops h
  intro f h f' hb hl hlog hlive
  exact ⟨by rw [hb, hlive, h.ids], by rw [hl, hb, hlive, h.latest], by rw [hlog, hlive, h.log]⟩

theorem base_run : (f.run ops).base = f.base :=
  run_log (P := fun g => g.base = f.base) (fun _ _ h => h) (fun _ h _ hb _ _ _ => hb.trans h) ops rfl

/-- What was sent stays sent. -/
theorem live_prefix_run : f.live <+: (f.run ops).live :=
  run_log (P := fun g => f.live <+: g.live) (fun _ _ h => h.trans (List.prefix_append _ _))
    (fun _ h _ _ _ _ hl => hl ▸ h) ops List.prefix_rfl

end Fleet

/-- Of consecutively numbered events, those after a cursor are a tail. -/
theorem filter_after {events : List EventData} {s c : Nat}
    (h : events.map (·.eventId) = List.range' (s + 1) events.length) :
    events.filter (c < ·.eventId) = events.drop (c - s) := by
  induction events generalizing s with
  | nil => rw [List.filter_nil, List.drop_nil]
  | cons data rest ih =>
    rw [List.length_cons, List.range'_succ, List.map_cons, List.cons.injEq] at h
    obtain ⟨hid, hrest⟩ := h
    rw [List.filter_cons, ih hrest, hid]
    by_cases hc : c ≤ s
    · rw [if_pos (by simp; omega), Nat.sub_eq_zero_of_le hc, Nat.sub_eq_zero_of_le (by omega)]
      rfl
    · rw [if_neg (by simp; omega), show c - s = c - (s + 1) + 1 by omega]
      rfl

namespace Fleet

variable {f f' : Fleet} {ops : List Operation} {c : Nat}

namespace Numbered

theorem live_after (h : f.Numbered) : f.live.filter (c < ·.eventId) = f.live.drop (c - f.base) :=
  filter_after h.ids

theorem log_ids (h : f.Numbered) : f.log.map (·.eventId) =
    List.range' (f.base + (f.live.length - retainedEvents) + 1) f.log.length := by
  rw [h.log, List.map_drop, h.ids, List.length_drop, List.drop_range']
  congr 1
  omega

theorem oldest_eq (h : f.Numbered) :
    f.oldest = f.base + (f.live.length - retainedEvents) + 1 := by
  have hids := h.log_ids
  unfold oldest
  cases hlog : f.log with
  | nil =>
    have hnil : f.live.length ≤ f.live.length - retainedEvents := by
      rw [← List.drop_eq_nil_iff, ← h.log, hlog]
    have hpos := retainedEvents_pos
    simp only [List.head?_nil]
    rw [h.latest]
    omega
  | cons data rest =>
    rw [hlog, List.map_cons, List.length_cons, List.range'_succ, List.cons.injEq] at hids
    exact hids.1

theorem log_after (h : f.Numbered) : f.log.filter (c < ·.eventId) =
    f.log.drop (c - (f.base + (f.live.length - retainedEvents))) :=
  filter_after h.log_ids

/-- A cursor continues exactly from the oldest retained event on. -/
theorem continues_iff (h : f.Numbered) (hmax : f.latest < u64Max) :
    f.continues c = true ↔ f.base + (f.live.length - retainedEvents) ≤ c ∧ c ≤ f.latest := by
  rw [continues, Bool.and_eq_true, decide_eq_true_eq, decide_eq_true_eq, h.oldest_eq]
  omega

/-- Up to the newest id, the events after a cursor are retained iff it reaches the log. -/
theorem retained_iff (h : f.Numbered) (hb : f.base ≤ c) :
    (∀ e ∈ f.live, c < e.eventId → e ∈ f.log) ↔
      f.base + (f.live.length - retainedEvents) ≤ c := by
  constructor
  · intro hall
    by_contra hlt
    have hi : c - f.base < f.live.length := by omega
    have hid : f.live[c - f.base].eventId = c + 1 := by
      have hget := congrArg (·[c - f.base]?) h.ids
      simp only [List.getElem?_map, List.getElem?_eq_getElem hi, Option.map_some,
        List.getElem?_range' hi, Option.some.injEq] at hget
      omega
    have hmem := List.mem_map_of_mem (f := (·.eventId))
      (hall _ (List.getElem_mem hi) (by omega))
    rw [h.log_ids, List.mem_range'_1] at hmem
    omega
  · intro hle e he hlt
    have hmem : e ∈ f.live.filter (c < ·.eventId) := List.mem_filter.mpr ⟨he, by simpa using hlt⟩
    rw [h.live_after] at hmem
    rw [h.log]
    exact List.drop_subset_drop_left _ (by omega) hmem

end Numbered

/-- Where a subscription starts: its cursor, or just before the oldest retained event. -/
def start (f : Fleet) (after : Option Nat) : Nat :=
  after.getD (f.oldest - 1)

/-- A subscription starts inside the log and takes everything retained from there. -/
theorem Numbered.subscribe_ok (h : f.Numbered) (hmax : f.latest < u64Max) {after : Option Nat}
    {sub : Subscription} (hs : f.subscribe after = .ok sub) :
    f.base ≤ f.start after ∧ f.start after ≤ f.latest ∧ sub.live = ⟨f.live.length⟩ ∧
      sub.backlog = f.live.drop (f.start after - f.base) := by
  have hbacklog : ∀ {c}, f.base + (f.live.length - retainedEvents) ≤ c →
      f.log.filter (c < ·.eventId) = f.live.drop (c - f.base) := by
    intro c hc
    rw [h.log_after, h.log, List.drop_drop]
    congr 1
    omega
  cases after with
  | none =>
    obtain rfl := Except.ok.inj hs
    have hold := h.oldest_eq
    have hl := h.latest
    have hstart : f.start none = f.base + (f.live.length - retainedEvents) := by
      rw [start, Option.getD_none, hold]
      rfl
    refine ⟨by omega, by omega, rfl, ?_⟩
    rw [hstart, subscription, h.log_after, Nat.zero_sub, h.log, List.drop_zero,
      Nat.add_sub_cancel_left]
  | some c =>
    rw [subscribe] at hs
    split_ifs at hs with hc
    obtain rfl := Except.ok.inj hs
    obtain ⟨hlo, hhi⟩ := (h.continues_iff hmax).mp hc
    refine ⟨?_, hhi, rfl, hbacklog hlo⟩
    simp only [start, Option.getD_some]
    omega

end Fleet

/-- A receiver that reads while the daemon goes on, never lagged: what it got so far. -/
inductive Streams (f : Fleet) (r : Receiver) : Fleet → Receiver → List EventData → Prop
  | subscribed : Streams f r f r []
  | operate {f' : Fleet} {r' : Receiver} {got : List EventData} (op : Operation)
      (hs : Streams f r f' r' got) : Streams f r (f'.apply op) r' got
  | receive {f' : Fleet} {r' : Receiver} {got : List EventData} {data : EventData}
      (hs : Streams f r f' r' got) (hr : r'.recv f'.live = .event data) :
      Streams f r f' ⟨r'.next + 1⟩ (got ++ [data])

variable {f f' : Fleet} {r r' : Receiver} {got : List EventData}

theorem Receiver.recv_eq_event {data : EventData} {sent : List EventData}
    (h : r.recv sent = .event data) : sent[r.next]? = some data := by
  unfold recv at h
  split_ifs at h
  split at h
  · rename_i hget
    rw [hget, Received.event.inj h]
  · cases h

theorem Receiver.recv_eq_empty {sent : List EventData} (h : r.recv sent = .empty) :
    sent.length ≤ r.next := by
  unfold recv at h
  split_ifs at h
  split at h
  · cases h
  · exact List.getElem?_eq_none_iff.mp ‹_›

theorem Streams.exists_run (h : Streams f r f' r' got) : ∃ ops, f' = f.run ops := by
  induction h with
  | subscribed => exact ⟨[], rfl⟩
  | operate op _ ih =>
    obtain ⟨ops, rfl⟩ := ih
    exact ⟨ops ++ [op], by rw [Fleet.run_append, Fleet.run_singleton]⟩
  | receive _ _ ih => exact ih

/-- What a receiver got and what it has not read yet are the messages sent since. -/
theorem Streams.got_append (h : Streams f r f' r' got) (hr : r.next ≤ f.live.length) :
    got ++ f'.live.drop r'.next = f'.live.drop r.next := by
  have hkey : r'.next = r.next + got.length ∧ r'.next ≤ f'.live.length ∧
      got = (f'.live.drop r.next).take got.length := by
    induction h with
    | subscribed => exact ⟨rfl, hr, rfl⟩
    | @operate f' r' got op _ ih =>
      obtain ⟨hn, hle, hgot⟩ := ih
      have hprefix : f'.live <+: (f'.run [op]).live := Fleet.live_prefix_run
      obtain ⟨more, hmore⟩ : f'.live <+: (f'.apply op).live := hprefix
      refine ⟨hn, ?_, ?_⟩
      · rw [← hmore, List.length_append]
        omega
      · rw [← hmore, List.drop_append_of_le_length (by omega),
          List.take_append_of_le_length (by rw [List.length_drop]; omega)]
        exact hgot
    | @receive f' r' got data _ hrecv ih =>
      obtain ⟨hn, hle, hgot⟩ := ih
      have hget := Receiver.recv_eq_event hrecv
      obtain ⟨hlt, -⟩ := List.getElem?_eq_some_iff.mp hget
      refine ⟨?_, hlt, ?_⟩
      · simp only [List.length_append, List.length_singleton]
        omega
      · rw [List.length_append, List.length_singleton, List.take_add_one, ← hgot, List.getElem?_drop,
          ← hn, hget]
        rfl
  obtain ⟨hn, -, hgot⟩ := hkey
  conv_lhs => rw [hgot]
  rw [hn, ← List.drop_drop, List.take_append_drop]

/-- What a subscriber has received is the stream after its start, each event once and in order. -/
theorem Fleet.Numbered.stream (h : f.Numbered) (hmax : f.latest < u64Max) {after : Option Nat}
    {sub : Subscription} (hs : f.subscribe after = .ok sub) (hst : Streams f sub.live f' r got) :
    sub.backlog ++ got ++ f'.live.drop r.next = f'.live.filter (f.start after < ·.eventId) := by
  obtain ⟨hlo, hhi, hlive, hback⟩ := h.subscribe_ok hmax hs
  obtain ⟨ops, rfl⟩ := hst.exists_run
  obtain ⟨more, hmore⟩ : f.live <+: (f.run ops).live := Fleet.live_prefix_run
  have hl := h.latest
  rw [hlive] at hst
  calc sub.backlog ++ got ++ (f.run ops).live.drop r.next
      = f.live.drop (f.start after - f.base) ++ (f.run ops).live.drop f.live.length := by
        rw [List.append_assoc, hst.got_append le_rfl, hback]
    _ = (f.run ops).live.drop (f.start after - f.base) := by
        rw [← hmore, List.drop_left, List.drop_append_of_le_length (by omega)]
    _ = (f.run ops).live.filter (f.start after < ·.eventId) := by
        rw [h.run.live_after, Fleet.base_run]

/-- Consecutive ids, a log of the last events, cursors of this boot that the log still reaches,
and a stream of exactly the events after the cursor. -/
theorem subscription_exact {boot : Nat} {ops : List Operation}
    (hf : f = (Fleet.new boot).run ops) (hmax : f.latest < u64Max) :
    f.live.map (·.eventId) = List.range' (f.base + 1) f.live.length ∧
    (f.log <:+ f.live ∧ f.log.length = min f.live.length 1024) ∧
    (∀ c, (∃ sub, f.subscribe (some c) = .ok sub) ↔
      f.base ≤ c ∧ c ≤ f.latest ∧ ∀ e ∈ f.live, c < e.eventId → e ∈ f.log) ∧
    ∀ after sub, f.subscribe after = .ok sub → ∀ f' r got, Streams f sub.live f' r got →
      let stream := f'.live.filter (f.start after < ·.eventId)
      stream.map (·.eventId) = List.range' (f.start after + 1) stream.length ∧
        sub.backlog ++ got <+: stream ∧
        (r.recv f'.live = .empty → sub.backlog ++ got = stream) := by
  have h : f.Numbered := hf ▸ Fleet.numbered_new.run
  refine ⟨h.ids, ⟨?_, ?_⟩, fun c => ?_, fun after sub hs f' r got hst => ?_⟩
  · rw [h.log]
    exact List.drop_suffix _ _
  · rw [h.log, List.length_drop, retainedEvents]
    omega
  · have hold := h.oldest_eq
    have hiff : (∃ sub, f.subscribe (some c) = .ok sub) ↔ f.continues c = true := by
      rw [Fleet.subscribe]
      split_ifs with hc
      · exact ⟨fun _ => hc, fun _ => ⟨_, rfl⟩⟩
      · exact ⟨fun ⟨_, he⟩ => (nomatch he), fun he => absurd he hc⟩
    rw [hiff, h.continues_iff hmax]
    constructor
    · rintro ⟨hlo, hhi⟩
      have hb : f.base ≤ c := by omega
      exact ⟨hb, hhi, (h.retained_iff hb).mpr hlo⟩
    · rintro ⟨hb, hhi, hall⟩
      exact ⟨(h.retained_iff hb).mp hall, hhi⟩
  · have hstream := h.stream hmax hs hst
    obtain ⟨later, rfl⟩ := hst.exists_run
    obtain ⟨hlo, -, -, -⟩ := h.subscribe_ok hmax hs
    refine ⟨?_, ⟨_, hstream⟩, fun hempty => ?_⟩
    · rw [h.run.live_after, Fleet.base_run, List.map_drop, h.run.ids, Fleet.base_run,
        List.length_drop, List.drop_range']
      congr 1
      omega
    · rw [← hstream, List.drop_of_length_le (Receiver.recv_eq_empty hempty), List.append_nil]

/-- A subscription after the first event, with one more event before and one after it. -/
theorem subscription_exact_two :
    let f := (Fleet.new 1).run [.publish .unknown, .publish .unknown]
    ∃ sub, f.subscribe (some 1001) = .ok sub ∧
      (sub.backlog ++ [EventData.mk 1003 .unknown]).map (·.eventId) = [1002, 1003] := by
  intro f
  have hexact := subscription_exact (f := f) rfl (by decide +kernel)
  obtain ⟨sub, hsub⟩ := (hexact.2.2.1 1001).mpr (by decide +kernel)
  have hlive : sub.live = ⟨2⟩ := by
    have hc : f.continues 1001 = true := by decide +kernel
    rw [Fleet.subscribe, if_pos hc] at hsub
    rw [← Except.ok.inj hsub]
    rfl
  have hst : Streams f sub.live (f.apply (.publish .unknown)) ⟨3⟩ ([] ++ [⟨1003, .unknown⟩]) := by
    rw [hlive]
    exact .receive (.operate _ .subscribed) (by decide +kernel)
  obtain ⟨hids, -, hall⟩ := hexact.2.2.2 _ _ hsub _ _ _ hst
  refine ⟨sub, hsub, ?_⟩
  rw [List.nil_append] at hall
  rw [hall (by decide +kernel)]
  decide +kernel

/-- Before any event a cursor below the base is refused although nothing after it was lost. -/
theorem subscribe_below_base :
    let f := (Fleet.new 1).run []
    ¬ ((∃ sub, f.subscribe (some 0) = .ok sub) ↔
      (∀ e ∈ f.live, 0 < e.eventId → e ∈ f.log) ∧ 0 ≤ f.latest) := by
  intro f hiff
  obtain ⟨sub, hsub⟩ := hiff.mpr ⟨fun e he => (nomatch he), Nat.zero_le _⟩
  have hno : f.continues 0 = false := by decide +kernel
  rw [Fleet.subscribe, hno] at hsub
  cases hsub

end Agend.Client
