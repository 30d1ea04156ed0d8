import Agend.Delivery.Registered
import Agend.Runtime.StartupKeys

/-! No input slips past a switch. -/
namespace Agend.Delivery

open Library
open Agend.Runtime

variable {d d' : Daemon} {i j : Input} {t : Nat} {k : String} {o : Option Input}
  {r : BackendSwitch} {p : Purpose} {c : StartupCall}

/-- The records of the transitions. -/
abbrev Daemon.switches (d : Daemon) : Table BackendSwitch.instanceId := d.db.base.switches

theorem base_runtime {s : Startups} {op : Operation} :
    (s.call (.runtime op)).1.base = (s.base.call op).1 := by
  have hcascade : ∀ base, (s.cascade op base).base = base := fun base => by cases op <;> rfl
  cases hexec : s.base.exec op with
  | error text => simp only [Startups.call, Startups.exec, Store.call, hexec, Except.map]
  | ok r => simp only [Startups.call, Startups.exec, Store.call, hexec, Except.map, hcascade]

theorem out_runtime {s : Startups} {op : Operation} {reply : Reply}
    (h : (s.call (.runtime op)).2 = .ok (.runtime reply)) : (s.base.call op).2 = .ok reply := by
  cases hexec : s.base.exec op with
  | error text =>
    simp only [Startups.call, Startups.exec, hexec, Except.map] at h
    cases h
  | ok r =>
    simp only [Startups.call, Startups.exec, hexec, Except.map, Except.ok.injEq,
      StartupReply.runtime.injEq] at h
    simp only [Store.call, hexec, h]

theorem base_begin {s s' : Startups} {id session launch : String} {b : Bool}
    (h : s.beginClaudeStartup id session launch = .ok (s', b)) : s'.base = s.base := by
  unfold Startups.beginClaudeStartup at h
  split at h
  · obtain ⟨rfl, -⟩ := Prod.mk.inj (Except.ok.inj h)
    rfl
  · obtain ⟨-, h⟩ := require_bind_eq_ok.mp h
    obtain ⟨rfl, -⟩ := Prod.mk.inj (Except.ok.inj h)
    rfl

theorem base_manual {s s' : Startups} {id session launch : String}
    (h : s.manualClaudeStartup id session launch = .ok s') : s'.base = s.base := by
  obtain ⟨-, h⟩ := require_bind_eq_ok.mp h
  split at h <;> obtain rfl := Except.ok.inj h <;> rfl

theorem base_reserve {s s' : Startups} {key : ClaudeStartupKey} {b : Bool}
    (h : s.reserveClaudeStartupKey key = .ok (s', b)) : s'.base = s.base := by
  cases b with
  | true =>
    obtain ⟨r, i, -, -, -, -, -, rfl⟩ := reserve_eq_true h
    rfl
  | false =>
    obtain ⟨-, h⟩ := require_bind_eq_ok.mp h
    obtain ⟨paused, -, h⟩ := bind_eq_ok.mp h
    split at h
    · rw [(Prod.mk.inj (Except.ok.inj h)).1]
    · split at h
      · split_ifs at h
        · cases (Prod.mk.inj (Except.ok.inj h)).2
        · rw [(Prod.mk.inj (Except.ok.inj h)).1]
      · rw [(Prod.mk.inj (Except.ok.inj h)).1]

/-- A call on the startups alone. -/
theorem base_startup {s : Startups} (hc : ∀ op, c ≠ .runtime op) : (s.call c).1.base = s.base := by
  unfold Startups.call
  split
  · rename_i s' reply h
    cases c with
    | runtime op => exact absurd rfl (hc op)
    | begin_ id session launch =>
      obtain ⟨⟨s1, b⟩, h1, he⟩ := map_eq_ok.mp h
      obtain ⟨rfl, -⟩ := Prod.mk.inj he
      exact base_begin h1
    | manual id session launch =>
      obtain ⟨s1, h1, he⟩ := map_eq_ok.mp h
      obtain ⟨rfl, -⟩ := Prod.mk.inj he
      exact base_manual h1
    | halt id session =>
      obtain ⟨rfl, -⟩ := Prod.mk.inj (Except.ok.inj h)
      unfold Startups.haltClaudeStartup
      split
      · split_ifs <;> rfl
      · rfl
    | reserve key =>
      obtain ⟨⟨s1, b⟩, h1, he⟩ := map_eq_ok.mp h
      obtain ⟨rfl, -⟩ := Prod.mk.inj he
      exact base_reserve h1
    | finish key written =>
      obtain ⟨rfl, -⟩ := Prod.mk.inj (Except.ok.inj h)
      unfold Startups.finishClaudeStartupKey
      split
      · split_ifs <;> rfl
      · rfl
  · rfl

/-- The calls that the supervisor does not make leave the records alone. -/
theorem switches_shift {s s' : Store} {op : Operation} {out : Except String Reply}
    (h : Shift s op s' out) (hop : op.delivers = true ∨ reserved (.runtime op) = false) :
    s'.switches = s.switches := by
  cases h with
  | still => rfl
  | delivered hop hf => exact hf.switches
  | added => rfl
  | changed => rfl
  | launched => rfl
  | _ => rcases hop with hop | hop <;> cases hop

theorem switches_call {s : Startups} (hc : ∀ op, c = .runtime op →
    op.delivers = true ∨ reserved c = false) : (s.call c).1.base.switches = s.base.switches := by
  by_cases hop : ∃ op, c = .runtime op
  · obtain ⟨op, rfl⟩ := hop
    have hs : runtime.step s.base op (s.base.call op).1 (s.base.call op).2 := rfl
    rw [base_runtime]
    exact switches_shift (shift_of_step hs) (hc op rfl)
  · rw [base_startup fun op he => hop ⟨op, he⟩]

theorem startupPaused_eq_false {s : Startups} (h : s.startupPaused k = .ok false) :
    ∀ record, s.base.switches.get k = some record →
      record.phase ≠ .prepared ∧ record.phase ≠ .rollbackPrepared := by
  intro record hget
  obtain ⟨found, hfound, hnot⟩ := map_eq_ok.mp h
  rw [Store.readSwitch_eq_ok hfound] at hget
  rw [hget, Option.any_some, Bool.or_eq_false_iff, decide_eq_false_iff_not,
    decide_eq_false_iff_not] at hnot
  exact hnot

/-- A reservation of content starts while nothing is pending. -/
theorem settled_of_reserve {s : Startups} {new : NewClaudeDelivery} {now : Nat}
    {delivery : ClaudeDelivery}
    (h : (s.call (.runtime (.reserve new now))).2 = .ok (.runtime (.reservation (.started delivery)))) :
    ∀ record, s.base.switches.get new.instanceId = some record → record.phase.pending = false := by
  have hout := out_runtime h
  unfold Store.call at hout
  split at hout
  · rename_i s' reply hexec
    obtain rfl := Except.ok.inj hout
    obtain ⟨⟨s1, r⟩, hreserve, he⟩ := map_eq_ok.mp hexec
    cases he
    rcases reserve_eq_ok hreserve with ⟨-, hno⟩ | ⟨m, d, d', -, hstart, -, -⟩
    · exact absurd rfl (hno delivery)
    · exact hstart.settled
  · cases hout

theorem open_of_reserveKey {s : Startups} {key : ClaudeStartupKey}
    (h : (s.call (.reserve key)).2 = .ok (.bool true)) :
    ∀ record, s.base.switches.get key.startup.instanceId = some record →
      record.phase ≠ .prepared ∧ record.phase ≠ .rollbackPrepared := by
  unfold Startups.call at h
  split at h
  · rename_i s' reply hexec
    obtain rfl := Except.ok.inj h
    obtain ⟨⟨s1, b⟩, hreserve, he⟩ := map_eq_ok.mp hexec
    cases he
    obtain ⟨r, i, -, -, -, -, hpaused, -⟩ := reserve_eq_true hreserve
    exact startupPaused_eq_false hpaused
  · cases h

/-- What pauses an input of the kind. -/
def Pauses (kind : Kind) (phase : BackendSwitchPhase) : Prop :=
  if kind = .startupKey then phase = .prepared ∨ phase = .rollbackPrepared
  else phase.pending = true

/-- An input of the kind may be permitted now. -/
def Free (d : Daemon) (kind : Kind) (k : String) : Prop :=
  ∀ record, d.switches.get k = some record → ¬ Pauses kind record.phase

/-- What a step of an input, or a call on the tables, does to the daemon. -/
structure Advances (d d' : Daemon) (o : Option Input) : Prop where
  task : d'.task = d.task
  next : d.next ≤ d'.next
  switches : d'.switches = d.switches
  /-- Permitted is what was permitted, or is permitted now. -/
  permitted : ∀ t i, d'.inputs.get t = some i → i.stage = .permitted →
    (∃ j, d.inputs.get t = some j ∧ j.instanceId = i.instanceId ∧ j.stage = .permitted) ∨
      ∃ j, o = some j ∧ j.token = t ∧ j.instanceId = i.instanceId
  /-- A token that was dropped stays dropped. -/
  dropped : ∀ t, t < d.next → d.strong t = false → d'.strong t = false
  free : ∀ j, o = some j → Free d j.kind j.instanceId

theorem Advances.same (ht : d'.task = d.task) (hn : d'.next = d.next)
    (hs : d'.switches = d.switches) (hi : d'.inputs = d.inputs) : Advances d d' none where
  task := ht
  next := hn.ge
  switches := hs
  permitted t i h hstage := Or.inl ⟨i, hi ▸ h, rfl, hstage⟩
  dropped t _ h := by rwa [Daemon.strong, hi]
  free j h := by cases h

theorem advances_move (db : Startups) {stage : Stage} (hi : d.inputs.get i.token = some i)
    (hs : db.base.switches = d.switches) (hne : i.stage ≠ .taken)
    (ho : stage = .permitted → i.stage = .permitted ∨ o = some i)
    (hfree : ∀ j, o = some j → j = i ∧ Free d i.kind i.instanceId) :
    Advances d (({ d with db } : Daemon).move i stage) o where
  task := rfl
  next := Nat.le_refl _
  switches := hs
  permitted t j h hstage := by
    rw [get_move] at h
    split_ifs at h with ht
    · obtain rfl := Option.some.inj h
      rcases ho hstage with hold | ho
      · exact Or.inl ⟨i, ht ▸ hi, rfl, hold⟩
      · exact Or.inr ⟨i, ho, ht.symm, rfl⟩
    · exact Or.inl ⟨j, h, rfl, hstage⟩
  dropped t _ h := by
    rw [← Bool.not_eq_true, strong_iff] at h ⊢
    rintro ⟨j, hj, hstage⟩
    rw [get_move] at hj
    split_ifs at hj with ht
    · exact h ⟨i, ht ▸ hi, hne⟩
    · exact h ⟨j, hj, hstage⟩
  free j h := by
    obtain ⟨rfl, hf⟩ := hfree j h
    exact hf

theorem not_pauses_of_settled {kind : Kind} {phase : BackendSwitchPhase}
    (h : phase.pending = false) : ¬ Pauses kind phase := by
  unfold Pauses
  split_ifs
  · rintro (rfl | rfl) <;> cases h
  · rw [h]
    exact Bool.false_ne_true

theorem advances_reserve {new : NewClaudeDelivery} {now : Nat}
    (hi : d.inputs.get i.token = some i) (hk : new.instanceId = i.instanceId)
    (hne : i.stage ≠ .taken) :
    Advances d (d.reserve i new now).1 (d.reserve i new now).2 := by
  have hs : (d.db.call (.runtime (.reserve new now))).1.base.switches = d.switches :=
    switches_call fun op he => Or.inl (by cases he; rfl)
  unfold Daemon.reserve
  split
  · rename_i db delivery hcall
    rw [hcall] at hs
    refine advances_move db hi hs hne (fun _ => Or.inr rfl) fun j hj => ⟨(Option.some.inj hj).symm, ?_⟩
    have hout : (d.db.call (.runtime (.reserve new now))).2 =
        .ok (.runtime (.reservation (.started delivery))) := by rw [hcall]
    intro record hget
    refine not_pauses_of_settled (settled_of_reserve hout record ?_)
    rw [hk]
    exact hget
  · rename_i db out _ hcall
    rw [hcall] at hs
    exact .same rfl rfl hs rfl

theorem advances_reserveKey {key : ClaudeStartupKey} (hi : d.inputs.get i.token = some i)
    (hkind : i.kind = .startupKey) (hk : key.startup.instanceId = i.instanceId)
    (hne : i.stage ≠ .taken) :
    Advances d (d.reserveKey i key).1 (d.reserveKey i key).2 := by
  have hs : (d.db.call (.reserve key)).1.base.switches = d.switches :=
    switches_call fun op he => by cases he
  unfold Daemon.reserveKey
  split
  · rename_i db hcall
    rw [hcall] at hs
    refine advances_move db hi hs hne (fun _ => Or.inr rfl) fun j hj => ⟨(Option.some.inj hj).symm, ?_⟩
    have hout : (d.db.call (.reserve key)).2 = .ok (.bool true) := by rw [hcall]
    intro record hget hpauses
    rw [Pauses, if_pos hkind] at hpauses
    obtain ⟨h1, h2⟩ := open_of_reserveKey hout record (by rw [hk]; exact hget)
    rcases hpauses with hp | hp
    · exact h1 hp
    · exact h2 hp
  · rename_i db out _ hcall
    rw [hcall] at hs
    exact advances_move db hi hs hne (fun h => by cases h) fun j hj => by cases hj

theorem advances_switchInput (hi : d.inputs.get i.token = some i) (hne : i.stage ≠ .taken) :
    Advances d (d.switchInput i).1 (d.switchInput i).2 := by
  unfold Daemon.switchInput
  split
  · rename_i hpaused
    refine advances_move d.db hi rfl hne (fun _ => Or.inr rfl)
      fun j hj => ⟨(Option.some.inj hj).symm, fun record hget => ?_⟩
    exact not_pauses_of_settled (Store.deliveryPaused_eq_false hpaused record hget)
  · exact advances_move d.db hi rfl hne (fun h => by cases h) fun j hj => by cases hj

theorem advances_prune : Advances d (d.prune i) none := by
  obtain ⟨hinputs, hnext, htask, hdb, -⟩ := prune_spec (d := d) (i := i)
  refine ⟨htask, hnext.ge, by rw [Daemon.switches, hdb], fun t j h hpermitted => ?_,
    fun t _ h => ?_, fun j h => by cases h⟩
  · rw [hinputs, Table.get_erase] at h
    split_ifs at h
    exact Or.inl ⟨j, h, rfl, hpermitted⟩
  · rw [← Bool.not_eq_true, strong_iff] at h ⊢
    rintro ⟨j, hj, hne⟩
    rw [hinputs, Table.get_erase] at hj
    split_ifs at hj
    exact h ⟨j, hj, hne⟩

/-- A step of a task with a guard. -/
theorem stepInput_spec {e : InputEvent} (hr : Registered d) (hi : d.inputs.get t = some i)
    (h : d.stepInput i e = some (d', o)) : Registered d' ∧ Advances d d' o := by
  obtain rfl := token_eq hi
  have hmoved : ∀ (db : Startups) {stage : Stage}, i.stage ≠ .taken →
      Registered (({ d with db } : Daemon).move i stage) := fun _ _ hne =>
    registered_move (d := { d with db := _ }) ⟨hr.fresh, hr.listed, hr.owned⟩ hi
      fun htaken => absurd htaken hne
  cases e with
  | reserve new now =>
    simp only [Daemon.stepInput] at h
    split_ifs at h with hcond
    obtain ⟨-, hk, hstage⟩ := hcond
    have hne : i.stage ≠ .taken := by rcases hstage with hs | hs <;> rw [hs] <;> simp
    have ha : Advances d (d.reserve i new now).1 (d.reserve i new now).2 :=
      advances_reserve hi hk hne
    rw [Option.some.inj h] at ha
    refine ⟨?_, ha⟩
    rw [← (Prod.mk.inj (Option.some.inj h)).1]
    split
    · exact hmoved _ hne
    · exact hr.same rfl rfl rfl
  | reserveKey key =>
    simp only [Daemon.stepInput] at h
    split_ifs at h with hcond
    obtain ⟨hkind, hk, hstage⟩ := hcond
    have hne : i.stage ≠ .taken := by rw [hstage]; simp
    have ha := advances_reserveKey hi hkind hk hne
    rw [Option.some.inj h] at ha
    refine ⟨?_, ha⟩
    rw [← (Prod.mk.inj (Option.some.inj h)).1]
    split
    · exact hmoved _ hne
    · exact hmoved _ hne
  | switchInput =>
    simp only [Daemon.stepInput] at h
    split_ifs at h with hcond
    have hne : i.stage ≠ .taken := by rw [hcond.2.2]; simp
    have ha := advances_switchInput hi hne
    rw [Option.some.inj h] at ha
    refine ⟨?_, ha⟩
    rw [← (Prod.mk.inj (Option.some.inj h)).1]
    split
    · exact hmoved d.db hne
    · exact hmoved d.db hne
  | written =>
    simp only [Daemon.stepInput] at h
    split_ifs at h with hstage
    obtain ⟨rfl, rfl⟩ := Prod.mk.inj (Option.some.inj h)
    have hne : i.stage ≠ .taken := by rw [hstage]; simp
    exact ⟨hmoved d.db hne, advances_move d.db hi rfl hne (fun h => by cases h)
      fun j hj => by cases hj⟩
  | cancelled =>
    simp only [Daemon.stepInput] at h
    split_ifs at h with hstage
    obtain ⟨rfl, rfl⟩ := Prod.mk.inj (Option.some.inj h)
    have hne : i.stage ≠ .taken := by rcases hstage with hs | hs <;> rw [hs] <;> simp
    exact ⟨hmoved d.db hne, advances_move d.db hi rfl hne (fun h => by cases h)
      fun j hj => by cases hj⟩
  | take =>
    simp only [Daemon.stepInput] at h
    split_ifs at h with hstage
    obtain ⟨rfl, rfl⟩ := Prod.mk.inj (Option.some.inj h)
    have hne : i.stage ≠ .taken := by rw [hstage]; simp
    exact ⟨hmoved d.db hne, advances_move d.db hi rfl hne (fun h => by cases h)
      fun j hj => by cases hj⟩
  | prune =>
    simp only [Daemon.stepInput] at h
    split_ifs at h with hstage
    obtain ⟨rfl, rfl⟩ := Prod.mk.inj (Option.some.inj h)
    exact ⟨registered_prune hr hi, advances_prune⟩

end Agend.Delivery
