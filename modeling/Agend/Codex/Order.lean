import Agend.Codex.Link
import Agend.Codex.Seq

/-! A queued message is not sent before one that was stored earlier and still waits. -/
namespace Agend.Codex

open Library
open Agend.Runtime

/-- The rows that a flush has in hand, the one that it sends first. -/
def Task.rows : Task → List Message
  | .flushing f => f.rows
  | .sending f row _ => row :: f.rows
  | _ => []

/-- The rows that a flush has not looked at. -/
def Task.ahead : Task → List Message
  | .flushing f | .sending f _ _ => f.rows
  | _ => []

def Task.waiting : Task → Bool
  | .flushing f | .sending f _ _ => f.waiting
  | _ => false

namespace Link

/-- A queued message to the agent, of level `Queue`, that was never written. -/
def Waits (l : Link) (k : String) : Prop :=
  ∃ m ∈ l.store.messages.get k, m.toInstance = l.id ∧ m.level = .queue ∧ m.state = .queued ∧
    k ∉ l.submitted

instance {l : Link} {k : String} : Decidable (l.Waits k) :=
  inferInstanceAs (Decidable (∃ m ∈ _, _))

def Before (l : Link) (k k' : String) : Prop :=
  seq l.store.messages k < seq l.store.messages k'

instance {l : Link} {k k' : String} : Decidable (l.Before k k') :=
  Nat.decLt _ _

/-- A reservation is refused. -/
def Paused (l : Link) : Prop :=
  l.store.deliveryPaused l.id ≠ .ok false

instance {l : Link} : Decidable l.Paused :=
  inferInstanceAs (Decidable (_ ≠ _))

/-- The flush left a message of level `Queue` behind that still waits, does not hold the rows of
this level back, and has one of them ahead. -/
def Passed (l : Link) : Prop :=
  l.task.waiting = false ∧ ∃ r ∈ l.task.ahead, r.level = .queue ∧
    ∃ k, l.Waits k ∧ l.Before k r.id ∧ k ∉ l.task.rows.map Message.id

/-- The pause ends. -/
def Resumes (l l' : Link) : Prop :=
  l.Paused ∧ ¬ l'.Paused

instance {l l' : Link} : Decidable (Resumes l l') :=
  inferInstanceAs (Decidable (_ ∧ _))

end Link

open Link

/-- The rows in hand are in order, and no message before them waits for its own send. -/
structure Ordered (l : Link) : Prop where
  listed : (l.task.rows.map Message.id).Pairwise l.Before
  stored : ∀ r ∈ l.task.rows, ∃ m, l.store.messages.get r.id = some m ∧ m.level = r.level ∧
    m.toInstance = l.id
  kept : ¬ l.Paused → ¬ l.Passed
  next : ∀ f row stage, l.task = .sending f row stage → row.level = .queue →
    ∀ k, l.Waits k → ¬ l.Before k row.id

/-- What every step leaves of the messages. -/
structure Steady (l l' : Link) : Prop where
  id : l'.id = l.id
  grows : Grows l.store.messages l'.store.messages
  submitted : l.submitted ⊆ l'.submitted

variable {l l' : Link} {f : Flush} {row r : Message} {stage stage' : Stage} {k : String}
  {s s' : Store} {id : String} {now : Nat}

theorem ahead_subset : l.task.ahead ⊆ l.task.rows := by
  cases l.task with
  | flushing f => exact List.Subset.refl _
  | sending f row stage => exact List.subset_cons_self _ _
  | _ => exact List.Subset.refl _

/-- What waits before an old message was waiting before it. -/
theorem Steady.waits_before (h : Steady l l') (hr : l.store.messages.get r.id ≠ none)
    (hw : l'.Waits k) (hb : l'.Before k r.id) : l.Waits k ∧ l.Before k r.id := by
  have hk : l.store.messages.get k ≠ none := fun hk =>
    absurd hb (Nat.lt_asymm (h.grows.fresh k r.id hk hr))
  obtain ⟨m, hm⟩ := Option.ne_none_iff_exists'.mp hk
  obtain ⟨m', hm', hl, ht, hq⟩ := h.grows.kept k m hm
  obtain ⟨m1, hm1, ht1, hl1, hq1, hsub⟩ := hw
  obtain rfl := Option.some.inj (hm'.symm.trans hm1)
  refine ⟨⟨m, hm, ?_, hl.symm.trans hl1, hq hq1, fun hmem => hsub (h.submitted hmem)⟩, ?_⟩
  · rw [← ht, ht1, h.id]
  · rw [Before, h.grows.seq k hk, h.grows.seq r.id hr] at hb
    exact hb

theorem Ordered.get_ne_none (h : Ordered l) (hr : r ∈ l.task.rows) :
    l.store.messages.get r.id ≠ none := by
  obtain ⟨m, hm, -⟩ := h.stored r hr
  rw [hm]
  exact nofun

/-- Nothing else is left behind when the rows that go do not wait. -/
theorem Steady.passed (h : Steady l l') (ho : Ordered l) (hw : l'.task.waiting = l.task.waiting)
    (ha : l'.task.ahead ⊆ l.task.ahead)
    (hgone : ∀ k, l'.Waits k → k ∈ l.task.rows.map Message.id → k ∈ l'.task.rows.map Message.id)
    (hp : l'.Passed) : l.Passed := by
  obtain ⟨hwait, r, hr, hlevel, k, hk, hb, hnot⟩ := hp
  have hmem := ha hr
  obtain ⟨hk', hb'⟩ := h.waits_before (ho.get_ne_none (ahead_subset hmem)) hk hb
  exact ⟨hw ▸ hwait, r, hmem, hlevel, k, hk', hb', fun hin => hnot (hgone k hk hin)⟩

/-- Rows of those in hand stay in order. -/
theorem Steady.ordered (h : Steady l l') (ho : Ordered l) (hrows : l'.task.rows.Sublist l.task.rows)
    (hkept : ¬ l'.Paused → ¬ l'.Passed)
    (hnext : ∀ f row stage, l'.task = .sending f row stage → row.level = .queue →
      ∀ k, l'.Waits k → ¬ l'.Before k row.id) : Ordered l' := by
  refine ⟨?_, fun r hr => ?_, hkept, hnext⟩
  · refine (ho.listed.sublist (hrows.map _)).imp_of_mem fun {a b} ha hb hab => ?_
    obtain ⟨ra, hra, rfl⟩ := List.mem_map.mp ha
    obtain ⟨rb, hrb, rfl⟩ := List.mem_map.mp hb
    rw [Before, h.grows.seq _ (ho.get_ne_none (hrows.subset hra)),
      h.grows.seq _ (ho.get_ne_none (hrows.subset hrb))]
    exact hab
  · obtain ⟨m, hm, hl, ht⟩ := ho.stored r (hrows.subset hr)
    obtain ⟨m', hm', hl', ht', -⟩ := h.grows.kept r.id m hm
    exact ⟨m', hm', hl'.trans hl, ht'.trans (ht.trans h.id.symm)⟩

/-- Between two flushes nothing is in hand. -/
theorem ordered_of_rows (h : l.task.rows = []) : Ordered l := by
  refine ⟨?_, ?_, ?_, ?_⟩
  · rw [h]
    exact .nil
  · rw [h]
    exact fun r hr => absurd hr List.not_mem_nil
  · rintro - ⟨-, r, hr, -⟩
    have hmem := ahead_subset hr
    rw [h] at hmem
    exact absurd hmem List.not_mem_nil
  · intro f row stage ht
    rw [ht] at h
    cases h

theorem steady_store (hid : l'.id = l.id) (hs : Grows l.store.messages l'.store.messages)
    (hsub : l'.submitted = l.submitted) : Steady l l' :=
  ⟨hid, hs, hsub ▸ List.Subset.refl _⟩

/-- While the rows in hand stay, nothing changes unless the pause ends. -/
theorem ordered_same (ho : Ordered l) (h : Steady l l') (hcond : Resumes l l' → ¬ l.Passed)
    (hwait : l'.task.waiting = l.task.waiting) (hahead : l'.task.ahead = l.task.ahead)
    (hrows : l'.task.rows = l.task.rows)
    (hnext : ∀ f row stage, l'.task = .sending f row stage →
      ∃ f' stage', l.task = .sending f' row stage') : Ordered l' := by
  refine h.ordered ho (by rw [hrows]) (fun hp hpassed => ?_) fun f row stage ht hlevel k hk hb => ?_
  · have hbefore := h.passed ho hwait (hahead ▸ List.Subset.refl _)
      (fun k _ hmem => hrows ▸ hmem) hpassed
    by_cases hpaused : l.Paused
    · exact hcond ⟨hpaused, hp⟩ hbefore
    · exact ho.kept hpaused hbefore
  · obtain ⟨f', stage', ht'⟩ := hnext f row stage ht
    have hmem : row ∈ l.task.rows := by
      rw [ht']
      exact List.mem_cons_self
    obtain ⟨hk', hb'⟩ := h.waits_before (ho.get_ne_none hmem) hk hb
    exact ho.next f' row stage' ht' hlevel k hk' hb'

/-- A snapshot holds every message that waits. -/
theorem mem_queued (h : l.Waits k) : k ∈ l.queued.map Message.id := by
  obtain ⟨m, hm, ht, -, hq, -⟩ := h
  obtain ⟨hmem, rfl⟩ := Table.get_eq_some.mp hm
  refine List.mem_map_of_mem (List.mem_filter.mpr ⟨List.mem_filter.mpr ⟨hmem, ?_⟩, ?_⟩)
  · exact decide_eq_true ht
  · exact decide_eq_true hq

theorem pairwise_idxOf {α : Type*} [DecidableEq α] {xs : List α} (h : xs.Nodup) :
    xs.Pairwise (fun a b => xs.idxOf a < xs.idxOf b) := by
  rw [List.pairwise_iff_getElem]
  intro i j hi hj hij
  rwa [h.idxOf_getElem i hi, h.idxOf_getElem j hj]

theorem ordered_snapshot (h : l'.task = .flushing ⟨false, l.queued⟩) (hs : l'.store = l.store)
    (hid : l'.id = l.id) : Ordered l' := by
  have hrows : l'.task.rows = l.queued := by
    rw [h]
    rfl
  have hsub : l.queued.Sublist l'.store.messages.rows := by
    rw [hs]
    exact List.filter_sublist.trans List.filter_sublist
  refine ⟨?_, fun r hr => ?_, fun _ hp => ?_, fun f row stage ht => ?_⟩
  · rw [hrows]
    exact (pairwise_idxOf l'.store.messages.nodup).sublist (hsub.map _)
  · rw [hrows] at hr
    have hto := (List.mem_filter.mp (List.mem_filter.mp hr).1).2
    exact ⟨r, Table.get_of_mem (hsub.subset hr), rfl, (of_decide_eq_true hto).trans hid.symm⟩
  · obtain ⟨-, r, -, -, k, hk, -, hnot⟩ := hp
    have hqueued : l'.queued = l.queued := by
      rw [Link.queued, hs, hid, Link.queued]
    rw [hrows, ← hqueued] at hnot
    exact hnot (mem_queued hk)
  · rw [h] at ht
    cases ht

theorem begin_eq_false (h : s.beginCodexAttempt id now = .ok (s', false)) :
    s' = s ∧ ∀ m, s.messages.get id = some m →
      m.state = .queued → s.deliveryPaused m.toInstance = .ok true := by
  unfold Store.beginCodexAttempt at h
  cases hget : s.messages.get id with
  | none =>
    rw [hget] at h
    exact ⟨(Prod.mk.inj (Except.ok.inj h)).1.symm, nofun⟩
  | some m =>
    rw [hget] at h
    simp only at h
    split_ifs at h with hq
    · refine ⟨(Prod.mk.inj (Except.ok.inj h)).1.symm, ?_⟩
      intro m' hm' hq'
      obtain rfl := Option.some.inj hm'
      exact absurd hq' hq
    · rw [bind_eq_ok] at h
      obtain ⟨paused, hpaused, h⟩ := h
      split_ifs at h with hp
      · refine ⟨(Prod.mk.inj (Except.ok.inj h)).1.symm, ?_⟩
        intro m' hm' _
        obtain rfl := Option.some.inj hm'
        rw [hpaused, hp]
      · rw [bind_eq_ok] at h
        obtain ⟨s1, -, h⟩ := h
        cases (Prod.mk.inj (Except.ok.inj h)).2

theorem begin_eq_true (h : s.beginCodexAttempt id now = .ok (s', true)) :
    s.markAttempted id now = .ok s' ∧
      ∃ m, s.messages.get id = some m ∧ s.deliveryPaused m.toInstance = .ok false := by
  unfold Store.beginCodexAttempt at h
  cases hget : s.messages.get id with
  | none =>
    rw [hget] at h
    cases (Prod.mk.inj (Except.ok.inj h)).2
  | some m =>
    rw [hget] at h
    simp only at h
    split_ifs at h with hq
    · cases (Prod.mk.inj (Except.ok.inj h)).2
    · rw [bind_eq_ok] at h
      obtain ⟨paused, hpaused, h⟩ := h
      split_ifs at h with hp
      · cases (Prod.mk.inj (Except.ok.inj h)).2
      · rw [bind_eq_ok] at h
        obtain ⟨s1, hs1, h⟩ := h
        obtain ⟨rfl, -⟩ := Prod.mk.inj (Except.ok.inj h)
        refine ⟨hs1, m, rfl, ?_⟩
        rw [hpaused, Bool.eq_false_iff.mpr hp]

theorem paused_congr (hs : l'.store.switches = l.store.switches) (hid : l'.id = l.id) :
    l'.Paused ↔ l.Paused := by
  rw [Paused, Store.deliveryPaused, Store.readSwitch, hs, hid, ← Store.readSwitch,
    ← Store.deliveryPaused, ← Paused]

/-- A row that is skipped does not wait, or the rows behind it are held back. -/
theorem ordered_skip {rows : List Message} {w w' : Bool} (ho : Ordered l) (hs : Steady l l')
    (ht : l.task = .flushing ⟨w, row :: rows⟩) (ht' : l'.task = .flushing ⟨w', rows⟩)
    (hskip : w' = true ∨ l'.Paused ∨ w' = w ∧ (¬ l'.Paused → ¬ l.Paused) ∧ ¬ l'.Waits row.id) :
    Ordered l' := by
  refine hs.ordered ho ?_ (fun hp hpassed => ?_) fun f' row' stage h => ?_
  · rw [ht, ht']
    exact List.sublist_cons_self _ _
  · rcases hskip with hw | hpaused | ⟨hw, hpaused, hrow⟩
    · have hfalse := hpassed.1
      rw [ht'] at hfalse
      cases hw.symm.trans hfalse
    · exact hp hpaused
    · refine ho.kept (hpaused hp) (hs.passed ho ?_ ?_ (fun k hk hmem => ?_) hpassed)
      · rw [ht, ht']
        exact hw
      · rw [ht, ht']
        exact List.subset_cons_self _ _
      · rw [ht] at hmem
        rw [ht']
        rcases List.mem_cons.mp hmem with rfl | hmem
        · exact absurd hk hrow
        · exact hmem
  · cases ht'.symm.trans h

/-- The rows behind a row of level `Queue` that goes do not include one that waits before it. -/
theorem ordered_begin {rows : List Message} {w : Bool} (ho : Ordered l) (hs : Steady l l')
    (ht : l.task = .flushing ⟨w, row :: rows⟩) (ht' : l'.task = .sending ⟨w, rows⟩ row stage)
    (hp : ¬ l.Paused) (hgo : row.level = .queue → w = false) : Ordered l' := by
  have hrow : row ∈ l.task.rows := by
    rw [ht]
    exact List.mem_cons_self
  refine hs.ordered ho ?_ (fun _ hpassed => ?_) fun f' row' stage' h hlevel k hk hb => ?_
  · rw [ht, ht']
    exact .refl _
  · refine ho.kept hp (hs.passed ho ?_ ?_ (fun k _ hmem => ?_) hpassed)
    · rw [ht, ht']
      rfl
    · rw [ht, ht']
      exact List.subset_cons_self _ _
    · rw [ht] at hmem
      rw [ht']
      exact hmem
  · obtain ⟨-, rfl, -⟩ := Task.sending.inj (ht'.symm.trans h)
    obtain ⟨hk', hb'⟩ := hs.waits_before (ho.get_ne_none hrow) hk hb
    refine ho.kept hp ⟨?_, row, ?_, hlevel, k, hk', hb', fun hmem => ?_⟩
    · rw [ht]
      exact hgo hlevel
    · rw [ht]
      exact List.mem_cons_self
    · have hlisted := ho.listed
      rw [ht] at hmem hlisted
      rcases List.mem_cons.mp hmem with rfl | hmem
      · exact Nat.lt_irrefl _ hb'
      · exact Nat.lt_asymm hb' (List.rel_of_pairwise_cons hlisted hmem)

theorem ordered_row (ho : Ordered l) (ht : l.task = .flushing f) : Ordered (l.row f now) := by
  obtain ⟨w, rows⟩ := f
  cases rows with
  | nil => exact ordered_of_rows rfl
  | cons row rows =>
    simp only [Link.row]
    split_ifs with hskip hwait
    · exact ordered_skip ho (steady_store rfl .refl rfl) ht rfl (Or.inl hskip.1)
    · exact ordered_skip ho (steady_store rfl .refl rfl) ht rfl (Or.inl rfl)
    · have hgo : row.level = .queue → w = false := fun hl => by
        cases hw : w with
        | false => rfl
        | true => exact absurd ⟨hw, hl⟩ hskip
      obtain ⟨m, hm, -, hto⟩ := ho.stored row (by rw [ht]; exact List.mem_cons_self)
      split
      · exact ordered_of_rows rfl
      · rename_i store hbegin
        obtain ⟨rfl, hno⟩ := begin_eq_false hbegin
        refine ordered_skip ho (steady_store rfl .refl rfl) ht rfl ?_
        by_cases hq : m.state = .queued
        · have hpaused := hno m hm hq
          rw [hto] at hpaused
          refine Or.inr (Or.inl ?_)
          rw [Paused, hpaused]
          exact nofun
        · refine Or.inr (Or.inr ⟨rfl, fun hp => hp, ?_⟩)
          rintro ⟨m', hm', -, -, hq', -⟩
          obtain rfl := Option.some.inj (hm.symm.trans hm')
          exact hq hq'
      · rename_i store hbegin
        obtain ⟨hmark, m', hm', hpaused⟩ := begin_eq_true hbegin
        obtain rfl := Option.some.inj (hm.symm.trans hm')
        rw [hto] at hpaused
        exact ordered_begin ho (steady_store rfl (grows_markAttempted hmark) rfl) ht rfl
          (fun hp => hp hpaused) hgo

/-- A row that was settled is not queued. -/
theorem advance_left {next : DeliveryState} {turn : Option String} {r : Option Message}
    (hnext : next = .sent ∨ next = .failed) (h : s.advance id next turn now = .ok (s', r)) :
    ∀ m, s'.messages.get id = some m → m.state ≠ .queued := by
  intro m hm hq
  have hadvance := (require_bind_eq_ok.mp h).2
  unfold Store.advanceClaude at hadvance
  cases hget : s.messages.get id with
  | none =>
    rw [hget] at hadvance
    obtain ⟨rfl, -⟩ := Prod.mk.inj (Except.ok.inj hadvance)
    cases hget.symm.trans hm
  | some m1 =>
    rw [hget] at hadvance
    simp only at hadvance
    split_ifs at hadvance with hcan
    · rw [bind_eq_ok] at hadvance
      obtain ⟨at_, -, hadvance⟩ := hadvance
      obtain ⟨rfl, -⟩ := Prod.mk.inj (Except.ok.inj hadvance)
      rw [Table.get_put, if_pos (Store.id_of_message hget).symm] at hm
      obtain rfl := Option.some.inj hm
      obtain rfl : next = .queued := hq
      rcases hnext with hn | hn <;> cases hn
    · obtain ⟨rfl, -⟩ := Prod.mk.inj (Except.ok.inj hadvance)
      obtain rfl := Option.some.inj (hget.symm.trans hm)
      rw [hq] at hcan
      rcases hnext with rfl | rfl <;> exact hcan rfl

theorem ordered_settle {state : DeliveryState} {turn : Option String} (ho : Ordered l)
    (ht : l.task = .sending f row stage) (hstate : state = .sent ∨ state = .failed) :
    Ordered (l.settle f row state turn now) := by
  unfold Link.settle
  split
  · exact ordered_of_rows rfl
  · rename_i store r hadvance
    have hs : Steady l { l with store := store, task := .flushing f } :=
      ⟨rfl, grows_advance hadvance, List.Subset.refl _⟩
    have hpaused : ({ l with store := store, task := .flushing f } : Link).Paused ↔ l.Paused :=
      paused_congr (frame_advance hadvance).switches rfl
    refine hs.ordered ho ?_ (fun hp hpassed => ?_) fun f' row' stage' h => ?_
    · rw [ht]
      exact List.sublist_cons_self _ _
    · refine ho.kept (fun h => hp (hpaused.mpr h))
        (hs.passed ho ?_ ?_ (fun k hk hmem => ?_) hpassed)
      · rw [ht]
        rfl
      · rw [ht]
        exact List.Subset.refl _
      · rw [ht] at hmem
        rcases List.mem_cons.mp hmem with rfl | hmem
        · obtain ⟨m, hm, -, -, hq, -⟩ := hk
          exact absurd hq (advance_left hstate hadvance m hm)
        · exact hmem
    · cases h

/-- The rows in hand stay while their send goes on. -/
theorem ordered_sending {stage' : Stage} (ho : Ordered l) (hs : Steady l l')
    (hstore : l'.store = l.store) (ht : l.task = .sending f row stage)
    (ht' : l'.task = .sending f row stage') : Ordered l' := by
  have hpaused : l'.Paused ↔ l.Paused := paused_congr (by rw [hstore]) hs.id
  refine ordered_same ho hs (fun h => absurd (hpaused.mpr h.1) h.2) ?_ ?_ ?_ fun f' row' stage1 h => ?_
  · rw [ht, ht']
    rfl
  · rw [ht, ht']
    rfl
  · rw [ht, ht']
    rfl
  · obtain ⟨-, rfl, -⟩ := Task.sending.inj (ht'.symm.trans h)
    exact ⟨f, stage, ht⟩

theorem ordered_answer {c : Call} {a : Answer} (ho : Ordered l)
    (ht : l.task = .sending f row (.await c)) : Ordered (l.answer f row c a) := by
  have hstarted : (l.started c a).id = l.id ∧ (l.started c a).store = l.store ∧
      (l.started c a).submitted = l.submitted := by
    unfold Link.started
    split <;> exact ⟨rfl, rfl, rfl⟩
  obtain ⟨hid, hstore, hsub⟩ := hstarted
  have hs : ∀ t : Task, Steady l { l.started c a with task := t } := fun t =>
    ⟨hid, hstore ▸ .refl, hsub ▸ List.Subset.refl _⟩
  simp only [Link.answer]
  split
  · exact ordered_sending ho (hs _) hstore ht rfl
  · exact ordered_sending ho (hs _) hstore ht rfl
  · exact ordered_sending ho (hs _) hstore ht rfl
  · exact ordered_of_rows rfl

theorem ordered_issue {c : Call} {written : Bool} (ho : Ordered l)
    (ht : l.task = .sending f row (.issue c)) : Ordered (l.issue f row c written) := by
  unfold Link.issue
  split_ifs
  · refine ordered_sending ho ⟨rfl, .refl, ?_⟩ rfl ht rfl
    exact List.subset_cons_self _ _
  · exact ordered_sending ho ⟨rfl, .refl, List.Subset.refl _⟩ rfl ht rfl
  · exact ordered_of_rows rfl

theorem ordered_flush : Ordered l.flush := by
  unfold Link.flush
  split_ifs
  · exact ordered_of_rows rfl
  · exact ordered_snapshot rfl rfl rfl

theorem ordered_work {t : Task} {e : Event} (ho : Ordered l) (ht : l.task = t)
    (h : l.work t e = some l') : Ordered l' := by
  unfold Link.work at h
  split at h
  · obtain rfl := Option.some.inj h
    exact ordered_of_rows rfl
  · obtain rfl := Option.some.inj h
    exact ordered_of_rows rfl
  · obtain rfl := Option.some.inj h
    exact ordered_flush
  · obtain rfl := Option.some.inj h
    exact ordered_flush
  · split_ifs at h
    obtain rfl := Option.some.inj h
    exact ordered_flush
  · obtain rfl := Option.some.inj h
    exact ordered_snapshot (l := l) rfl rfl rfl
  · obtain rfl := Option.some.inj h
    exact ordered_row ho ht
  · obtain rfl := Option.some.inj h
    exact ordered_issue ho ht
  · obtain rfl := Option.some.inj h
    exact ordered_answer ho ht
  · obtain rfl := Option.some.inj h
    exact ordered_settle ho ht (Or.inl rfl)
  · obtain rfl := Option.some.inj h
    exact ordered_settle ho ht (Or.inr rfl)
  · cases h

theorem ordered_step {e : Event} (ho : Ordered l) (h : l.step e = some l')
    (hcond : Resumes l l' → ¬ l.Passed) : Ordered l' := by
  unfold Link.step at h
  split at h
  · obtain rfl := Option.some.inj h
    exact ordered_same ho (steady_store rfl grows_call rfl) hcond rfl rfl rfl
      fun f row stage ht => ⟨f, stage, ht⟩
  · obtain rfl := Option.some.inj h
    exact ordered_same ho (steady_store rfl .refl rfl) hcond rfl rfl rfl
      fun f row stage ht => ⟨f, stage, ht⟩
  · obtain rfl := Option.some.inj h
    exact ordered_of_rows rfl
  · obtain rfl := Option.some.inj h
    exact ordered_of_rows rfl
  · exact ordered_work ho rfl h

/-- What a step writes is a row of its agent, after every queued one that waits. -/
theorem Ordered.sends {e : Event} (ho : Ordered l) (h : l.sends e = some k) :
    ∃ m, l.store.messages.get k = some m ∧ m.toInstance = l.id ∧
      (m.level = .queue → ∀ k', l.Waits k' → ¬ l.Before k' k) := by
  unfold Link.sends at h
  split at h
  · rename_i f row c ht
    split_ifs at h
    obtain rfl := Option.some.inj h
    obtain ⟨m, hm, hl, hto⟩ := ho.stored row (by rw [ht]; exact List.mem_cons_self)
    exact ⟨m, hm, hto, fun hlevel => ho.next f row (.issue c) ht (hl.symm.trans hlevel)⟩
  · cases h

/-- Where no pause ends over a flush that has passed a message, what is sent is to the agent, and at
level `Queue` nothing before it waits. -/
theorem queued_in_order {h : List (Transition Link Event (Option String))}
    (hr : (link id).Run h l) (hcond : ∀ t ∈ h, Resumes t.before t.after → ¬ t.before.Passed) :
    ∀ t ∈ h, ∀ k, t.output = some k → ∃ m, t.before.store.messages.get k = some m ∧
      m.toInstance = t.before.id ∧
      (m.level = .queue → ∀ k', t.before.Waits k' → ¬ t.before.Before k' k) := by
  have hall : Ordered l ∧ ∀ t ∈ h, Ordered t.before ∧ t.before.next t.event = some (t.after, t.output) := by
    induction hr with
    | start hs =>
      obtain rfl := hs
      exact ⟨ordered_of_rows rfl, fun t ht => absurd ht List.not_mem_nil⟩
    | snoc hr hs ih =>
      obtain ⟨ho, hbefore⟩ := ih fun t ht => hcond t (List.mem_cons_of_mem _ ht)
      obtain ⟨l1, hstep, he⟩ := Option.map_eq_some_iff.mp hs
      obtain ⟨rfl, rfl⟩ := Prod.mk.inj he
      refine ⟨ordered_step ho hstep (hcond _ List.mem_cons_self), fun t ht => ?_⟩
      rcases List.mem_cons.mp ht with rfl | ht
      · exact ⟨ho, hs⟩
      · exact hbefore t ht
  intro t ht k hk
  obtain ⟨ho, hs⟩ := hall.2 t ht
  obtain ⟨l1, -, he⟩ := Option.map_eq_some_iff.mp hs
  obtain ⟨-, ho'⟩ := Prod.mk.inj he
  exact ho.sends (ho'.trans hk)

theorem not_passed_of_ahead (h : l.task.ahead = []) : ¬ l.Passed := by
  rintro ⟨-, r, hr, -⟩
  rw [h] at hr
  exact absurd hr List.not_mem_nil

/-- Two messages that a prepared switch held back go out in order after it was cancelled. -/
theorem queued_in_order_resumed :
    let i : Instance :=
      ⟨"c", .codex, "/bin/a", [], "/tmp", some "s", .running, true, none, false, "push"⟩
    let source : ImportedBackend := ⟨1, "codex", "1.0",
      "0000000000000000000000000000000000000000000000000000000000000000", 1⟩
    let target : ImportedBackend := { source with version := "2.0" }
    let holder : HolderLaunch := ⟨"c", .codex, "/bin/holder", [], "/tmp"⟩
    let previous : ManagedLaunchIntent := ⟨"11111111-1111-4111-8111-111111111111", "c", source,
      "/bin/a", [], some "s", "push", "/bin/holder", [], "/tmp"⟩
    let prepared : BackendSwitch := ⟨"33333333-3333-4333-8333-333333333333", "c", previous, target,
      "/bin/b", some "s", .prepared, none, none⟩
    let played := Machine.play Link.next [] ⟨"c", .empty, false, none, false, .gone, []⟩
      [.store (.addInstance i), .store (.prepareLaunch i holder source none previous.binding),
        .store (.prepareSwitch i target "/bin/b" none prepared.id), .connect, .reconciled, .drained,
        .row 0, .store (.claimMessage ⟨"m1", "a", "c", none, "", .queue⟩ 1),
        .store (.claimMessage ⟨"m2", "a", "c", none, "", .queue⟩ 2), .flush, .row 3, .row 4, .row 5,
        .store (.cancelSwitch prepared), .flush, .row 6, .issue true, .answer (.ok (some "t")),
        .settle 7, .row 8, .issue true]
    played.1.filterMap (·.output) = ["m2", "m1"] ∧
      ∀ t ∈ played.1, ∀ k, t.output = some k → ∃ m, t.before.store.messages.get k = some m ∧
        m.toInstance = t.before.id ∧
        (m.level = .queue → ∀ k', t.before.Waits k' → ¬ t.before.Before k' k) := by
  refine And.imp_right
    (fun hcalm : ∀ t : Transition Link Event (Option String), t ∈ _ → Resumes t.before t.after →
        t.before.task.ahead = [] =>
      queued_in_order ((Machine.Run.start (M := link "c") rfl).play fun _ _ _ _ hn => hn)
        fun t ht hres => not_passed_of_ahead (hcalm t ht hres)) ?_
  decide +kernel

/-- The switch is cancelled after the flush passed over the first message. -/
theorem overtaken_after_cancel :
    let i : Instance :=
      ⟨"c", .codex, "/bin/a", [], "/tmp", some "s", .running, true, none, false, "push"⟩
    let source : ImportedBackend := ⟨1, "codex", "1.0",
      "0000000000000000000000000000000000000000000000000000000000000000", 1⟩
    let target : ImportedBackend := { source with version := "2.0" }
    let holder : HolderLaunch := ⟨"c", .codex, "/bin/holder", [], "/tmp"⟩
    let previous : ManagedLaunchIntent := ⟨"11111111-1111-4111-8111-111111111111", "c", source,
      "/bin/a", [], some "s", "push", "/bin/holder", [], "/tmp"⟩
    let prepared : BackendSwitch := ⟨"33333333-3333-4333-8333-333333333333", "c", previous, target,
      "/bin/b", some "s", .prepared, none, none⟩
    let played := Machine.play Link.next [] ⟨"c", .empty, false, none, false, .gone, []⟩
      [.store (.addInstance i), .store (.prepareLaunch i holder source none previous.binding),
        .store (.prepareSwitch i target "/bin/b" none prepared.id), .connect, .reconciled, .drained,
        .row 0, .store (.claimMessage ⟨"m1", "a", "c", none, "", .queue⟩ 1),
        .store (.claimMessage ⟨"m2", "a", "c", none, "", .queue⟩ 2), .flush, .row 3,
        .store (.cancelSwitch prepared), .row 4, .issue true]
    (link "c").Run played.1 played.2 ∧ ∃ t ∈ played.1, t.output = some "m2" ∧
      t.before.Waits "m1" ∧ t.before.Before "m1" "m2" ∧
      (t.before.store.messages.get "m2").map (·.level) = some .queue :=
  ⟨(Machine.Run.start (M := link "c") rfl).play fun _ _ _ _ hn => hn, by decide +kernel⟩

end Agend.Codex
