import Agend.Delivery.Drained

/-! What the supervisor knows at each point of a switch. -/
namespace Agend.Delivery

open Library
open Agend.Runtime

variable {d d' : Daemon} {i j : Input} {t : Nat} {k : String} {o : Option Input}
  {r r' : BackendSwitch} {p : Purpose}

/-- The record stands, in a phase that pauses every input. -/
def Held (d : Daemon) (r : BackendSwitch) : Prop :=
  d.switches.get r.instanceId = some r ∧ (r.phase = .prepared ∨ r.phase = .rollbackPrepared)

/-- The permitted inputs of the agent are in the fence. -/
def Covered (d : Daemon) (k : String) (fence : List Nat) : Prop :=
  ∀ t i, d.inputs.get t = some i → i.instanceId = k → i.stage = .permitted → t ∈ fence

def TaskSound (d : Daemon) : Task → Prop
  | .idle | .stopped _ _ => True
  | .admitting r rollback =>
    d.switches.get r.instanceId = some r ∧ StartsFrom rollback r.phase
  | .inspecting r _ => d.switches.get r.instanceId = some r ∧
    (r.phase = .committed ∨ r.phase = .rollbackPrepared)
  | .fencing p r => p ≠ .prepare → Held d r
  | .draining p r fence => p ≠ .prepare → Held d r ∧ Covered d r.instanceId fence
  | .drained _ r => Held d r ∧ Covered d r.instanceId []

theorem Held.pauses (h : Held d r) (kind : Kind) : Pauses kind r.phase := by
  unfold Pauses
  split_ifs
  · exact h.2
  · rcases h.2 with hp | hp <;> rw [hp] <;> rfl

theorem Held.advances (h : Held d r) (ha : Advances d d' o) : Held d' r :=
  ⟨by rw [ha.switches]; exact h.1, h.2⟩

/-- While the record stands, nothing of its agent is permitted anew. -/
theorem Covered.advances {fence : List Nat} (h : Covered d r.instanceId fence) (hr : Held d r)
    (ha : Advances d d' o) : Covered d' r.instanceId fence := by
  intro t i hi hk hstage
  rcases ha.permitted t i hi hstage with ⟨j, hj, hjk, hjstage⟩ | ⟨j, hj, -, hjk⟩
  · exact h t j hj (hjk.trans hk) hjstage
  · have hfree := ha.free j hj r (by rw [hjk, hk]; exact hr.1)
    exact absurd (hr.pauses j.kind) hfree

theorem taskSound_advances (h : TaskSound d d.task) (ha : Advances d d' o) :
    TaskSound d' d'.task := by
  rw [ha.task]
  cases htask : d.task with
  | idle => trivial
  | stopped p r => trivial
  | admitting r rollback =>
    rw [htask] at h
    exact ⟨by rw [ha.switches]; exact h.1, h.2⟩
  | inspecting r agentExited =>
    rw [htask] at h
    exact ⟨by rw [ha.switches]; exact h.1, h.2⟩
  | fencing p r =>
    rw [htask] at h
    exact fun hp => (h hp).advances ha
  | draining p r fence =>
    rw [htask] at h
    exact fun hp => ⟨(h hp).1.advances ha, (h hp).2.advances (h hp).1 ha⟩
  | drained p r =>
    rw [htask] at h
    exact ⟨h.1.advances ha, h.2.advances h.1 ha⟩

/-- What a step of the supervisor leaves. -/
structure Serves (d d' : Daemon) : Prop where
  active : d'.active = d.active
  inputs : d'.inputs = d.inputs
  next : d'.next = d.next
  sound : TaskSound d' d'.task

theorem readSwitch_eq_some (h : d.readSwitch k = some r) :
    d.switches.get r.instanceId = some r := by
  unfold Daemon.readSwitch at h
  split at h
  · rename_i found hfound
    obtain rfl := h
    have hget := Store.readSwitch_eq_ok hfound
    rw [← (Table.get_eq_some.mp hget).2] at hget
    exact hget
  · cases h

theorem serves_with {task : Task} (h : TaskSound d task) : Serves d (d.with_ task) :=
  ⟨rfl, rfl, rfl, by
    cases task with
    | idle | stopped p r => trivial
    | admitting | inspecting | fencing | draining | drained => exact h⟩

theorem serves_activate {id switchId : String} {rollback : Bool} :
    Serves d (d.activate id switchId rollback) := by
  unfold Daemon.activate
  split
  · exact serves_with trivial
  rename_i record hread
  split
  · exact serves_with trivial
  split
  · rename_i hphase
    exact serves_with ⟨readSwitch_eq_some hread, hphase⟩
  · exact serves_with trivial

theorem rollback_eq_ok {s s' : Store} (h : s.prepareBackendRollback r = .ok (s', r')) :
    s'.switches = s.switches.put r' ∧ r'.phase = .rollbackPrepared := by
  obtain ⟨current, hcurrent, h⟩ := bind_eq_ok.mp h
  obtain ⟨-, h⟩ := require_bind_eq_ok.mp h
  obtain ⟨i, -, h⟩ := bind_eq_ok.mp h
  obtain ⟨-, h⟩ := require_bind_eq_ok.mp h
  obtain ⟨s1, hs1, h⟩ := bind_eq_ok.mp h
  obtain ⟨rfl, rfl⟩ := Prod.mk.inj (Except.ok.inj h)
  rw [Store.writeSwitch_eq_ok hs1]
  exact ⟨rfl, rfl⟩

/-- A rollback that is saved pauses every input. -/
theorem serves_prepareRollback : Serves d (d.prepareRollback p r) := by
  unfold Daemon.prepareRollback
  split
  · rename_i db record hcall
    have hout : (d.db.base.call (.prepareRollback r)).2 = .ok (.backendSwitch record) :=
      out_runtime (by rw [hcall])
    have hbase : db.base = (d.db.base.call (.prepareRollback r)).1 := by
      rw [← base_runtime, hcall]
    unfold Store.call at hout hbase
    split at hout
    · rename_i s' reply hexec
      obtain rfl := Except.ok.inj hout
      rw [hexec] at hbase
      obtain ⟨⟨s1, r1⟩, h1, he⟩ := map_eq_ok.mp hexec
      cases he
      obtain ⟨hswitches, hphase⟩ := rollback_eq_ok h1
      refine ⟨rfl, rfl, rfl, fun _ => ⟨?_, Or.inr hphase⟩⟩
      rw [Daemon.switches, hbase, hswitches]
      exact Table.get_put_self
    · cases hout
  · exact ⟨rfl, rfl, rfl, trivial⟩

theorem serves_admitted {rollback : Bool} (h : TaskSound d (.admitting r rollback)) :
    Serves d (d.admitted r rollback) := by
  obtain ⟨hget, hphase⟩ := h
  unfold Daemon.admitted
  split
  · exact serves_prepareRollback
  · rename_i hno
    refine serves_with fun _ => ⟨hget, ?_⟩
    cases rollback with
    | true =>
      rcases hphase with hp | ⟨-, hp | hp⟩
      · exact absurd ⟨rfl, Or.inr hp⟩ hno
      · exact absurd ⟨rfl, Or.inl hp⟩ hno
      · exact Or.inr hp
    | false =>
      rcases hphase with hp | ⟨hn, -⟩
      · exact Or.inl hp
      · cases hn

theorem serves_lost {id : String} {agentExited : Bool} (htask : d.task = .idle) :
    Serves d (d.lost id agentExited) := by
  have hsame : Serves d d := ⟨rfl, rfl, rfl, by rw [htask]; trivial⟩
  unfold Daemon.lost
  split
  · exact hsame
  rename_i record hread
  split
  · rename_i hphase
    refine serves_with ⟨readSwitch_eq_some hread, ?_⟩
    rcases hphase with hphase | ⟨-, hphase⟩
    · exact Or.inl hphase
    · exact Or.inr hphase
  · exact hsame

theorem serves_inspected {agentExited running : Bool} (h : TaskSound d (.inspecting r agentExited)) :
    Serves d (d.inspected r agentExited running) := by
  obtain ⟨hget, hphase⟩ := h
  unfold Daemon.inspected
  split
  · exact serves_activate
  split
  · exact serves_with trivial
  split
  · exact serves_prepareRollback
  · rename_i hno
    exact serves_with fun _ => ⟨hget, Or.inr (hphase.resolve_left hno)⟩

/-- What is permitted is registered: the fence captures it. -/
theorem serves_takeFence (hr : Registered d) (h : TaskSound d (.fencing p r)) :
    Serves d (d.takeFence p r) := by
  unfold Daemon.takeFence
  split
  · refine serves_with fun hp => ⟨h hp, fun t i hi hk hstage => ?_⟩
    rw [← hk]
    exact hr.listed t i hi (by rw [hstage]; simp)
  · exact serves_with trivial

theorem serves_drainEnds {fence : List Nat} (h : TaskSound d (.draining p r fence))
    (hdrained : d.drained fence = true) : Serves d (d.drainEnds p r) := by
  unfold Daemon.drainEnds
  split
  · exact serves_with trivial
  · rename_i hp
    obtain ⟨hheld, hcovered⟩ := h hp
    refine serves_with ⟨hheld, fun t i hi hk hstage => ?_⟩
    have hdropped := List.all_eq_true.mp hdrained t (hcovered t i hi hk hstage)
    have hstrong : d.strong t = true := strong_iff.mpr ⟨i, hi, by rw [hstage]; simp⟩
    rw [hstrong] at hdropped
    cases hdropped

theorem serves_stepTask {e : TaskEvent} (hr : Registered d) (h : TaskSound d d.task)
    (he : d.stepTask d.task e = some d') : Serves d d' := by
  unfold Daemon.stepTask at he
  split at he
  · rename_i htask
    split_ifs at he
    obtain rfl := Option.some.inj he
    exact ⟨rfl, rfl, rfl, by rw [htask]; trivial⟩
  · rename_i htask
    obtain rfl := Option.some.inj he
    unfold Daemon.prepare
    split
    · exact ⟨rfl, rfl, rfl, fun hp => absurd rfl hp⟩
    · exact ⟨rfl, rfl, rfl, by rw [htask]; trivial⟩
  · obtain rfl := Option.some.inj he
    exact serves_activate
  · rename_i htask
    obtain rfl := Option.some.inj he
    exact serves_admitted (htask ▸ h)
  · rename_i htask
    obtain rfl := Option.some.inj he
    exact serves_lost htask
  · rename_i htask
    obtain rfl := Option.some.inj he
    exact serves_inspected (htask ▸ h)
  · rename_i htask
    obtain rfl := Option.some.inj he
    exact serves_takeFence hr (htask ▸ h)
  · rename_i htask
    split_ifs at he with hdrained
    obtain rfl := Option.some.inj he
    rw [htask] at h
    exact serves_drainEnds h hdrained
  · obtain rfl := Option.some.inj he
    exact serves_with trivial
  · obtain rfl := Option.some.inj he
    exact serves_activate
  · obtain rfl := Option.some.inj he
    exact ⟨rfl, rfl, rfl, trivial⟩
  · obtain rfl := Option.some.inj he
    exact ⟨rfl, rfl, rfl, trivial⟩
  · obtain rfl := Option.some.inj he
    exact serves_with trivial
  · cases he

/-- What every step does to the inputs. -/
structure Watched (d d' : Daemon) (o : Option Input) : Prop where
  permitted : ∀ t i, d'.inputs.get t = some i → i.stage = .permitted →
    (∃ j, d.inputs.get t = some j ∧ j.stage = .permitted) ∨ ∃ j, o = some j ∧ j.token = t
  dropped : ∀ t, t < d.next → d.strong t = false → t < d'.next ∧ d'.strong t = false
  free : ∀ j, o = some j → Free d j.kind j.instanceId

theorem Advances.watched (h : Advances d d' o) : Watched d d' o where
  permitted t i hi hstage := by
    rcases h.permitted t i hi hstage with ⟨j, hj, -, hjstage⟩ | ⟨j, hj, ht, -⟩
    · exact Or.inl ⟨j, hj, hjstage⟩
    · exact Or.inr ⟨j, hj, ht⟩
  dropped t ht hdropped := ⟨Nat.lt_of_lt_of_le ht h.next, h.dropped t ht hdropped⟩
  free := h.free

theorem Serves.watched (h : Serves d d') : Watched d d' none where
  permitted t i hi hstage := Or.inl ⟨i, h.inputs ▸ hi, hstage⟩
  dropped t ht hdropped := ⟨h.next ▸ ht, by rwa [Daemon.strong, h.inputs]⟩
  free j h := by cases h

theorem advances_begin {kind : Kind} : Advances d (d.begin_ k kind) none where
  task := rfl
  next := Nat.le_succ _
  switches := rfl
  permitted t i hi hstage := by
    have hget : (d.begin_ k kind).inputs.get t =
        if t = d.next then some ⟨d.next, k, kind, .registered⟩ else d.inputs.get t := Table.get_put
    rw [hget] at hi
    split_ifs at hi with ht
    · obtain rfl := Option.some.inj hi
      cases hstage
    · exact Or.inl ⟨i, hi, rfl, hstage⟩
  dropped t ht hdropped := by
    have hget : (d.begin_ k kind).inputs.get t =
        if t = d.next then some ⟨d.next, k, kind, .registered⟩ else d.inputs.get t := Table.get_put
    rwa [Daemon.strong, hget, if_neg (Nat.ne_of_lt ht)]
  free j h := by cases h

/-- What holds at every point of a run. -/
def Sound (d : Daemon) : Prop := Registered d ∧ TaskSound d d.task

theorem step_spec {e : Event} (h : Sound d) (he : d.step e = some (d', o)) :
    Sound d' ∧ Watched d d' o := by
  obtain ⟨hr, htask⟩ := h
  have hkept : ∀ {d' o}, Registered d' → Advances d d' o → Sound d' ∧ Watched d d' o :=
    fun hr' ha => ⟨⟨hr', taskSound_advances htask ha⟩, ha.watched⟩
  cases e with
  | begin_ id kind =>
    simp only [Daemon.step] at he
    split_ifs at he
    obtain ⟨rfl, rfl⟩ := Prod.mk.inj (Option.some.inj he)
    exact hkept (registered_begin hr) advances_begin
  | input t e =>
    obtain ⟨i, hi, he⟩ := Option.bind_eq_some_iff.mp he
    obtain ⟨hr', ha⟩ := stepInput_spec hr hi he
    exact hkept hr' ha
  | task e =>
    obtain ⟨d1, hd, he⟩ := Option.map_eq_some_iff.mp he
    obtain ⟨rfl, rfl⟩ := Prod.mk.inj he
    have hs := serves_stepTask hr htask hd
    exact ⟨⟨hr.same hs.active hs.inputs hs.next, hs.sound⟩, hs.watched⟩
  | store call =>
    simp only [Daemon.step] at he
    split_ifs at he with hcall
    obtain ⟨rfl, rfl⟩ := Prod.mk.inj (Option.some.inj he)
    exact hkept (hr.same rfl rfl rfl)
      (.same rfl rfl (switches_call fun _ _ => Or.inr (Bool.eq_false_iff.mpr hcall)) rfl)
  | restart =>
    obtain ⟨rfl, rfl⟩ := Prod.mk.inj (Option.some.inj he)
    refine ⟨⟨⟨fun t i hi => ?_, fun t i hi => ?_, fun k t ht => ?_⟩, trivial⟩,
      fun t i hi => ?_, fun t ht _ => ⟨ht, rfl⟩, fun j hj => by cases hj⟩
    · cases hi
    · cases hi
    · cases ht
    · cases hi
  | serve =>
    obtain ⟨rfl, rfl⟩ := Prod.mk.inj (Option.some.inj he)
    exact hkept (hr.same rfl rfl rfl) (.same rfl rfl rfl rfl)

theorem sound_of_reachable (hr : switching.Reachable d) : Sound d := by
  refine hr.invariant (P := Sound) ?_ fun d e d' o h hs => ?_
  case refine_2 => exact (step_spec h (show d.step e = some (d', o) from hs)).1
  rintro d ⟨hactive, hinputs, htask⟩
  refine ⟨⟨fun t i hi => ?_, fun t i hi => ?_, fun k t ht => ?_⟩, by rw [htask]; trivial⟩
  · rw [hinputs] at hi
    cases hi
  · rw [hinputs] at hi
    cases hi
  · rw [Daemon.fence, hactive] at ht
    cases ht

/-- A fence waits for the guards of the agent that were registered before it. -/
theorem drained_iff {newer older : List (Transition Daemon Event (Option Input))}
    {u : Transition Daemon Event (Option Input)} {fence : List Nat}
    (hr : switching.Run (newer ++ u :: older) d) (he : u.event = .task .fence)
    (htask : u.after.task = .draining p r fence) :
    d.drained fence = true ↔
      ∀ t i, u.before.inputs.get t = some i → i.instanceId = r.instanceId → d.strong t = false := by
  obtain ⟨holder, hs⟩ := hr.split
  have hsound := sound_of_reachable holder.reachable
  have hreg := hsound.1
  have hstep : u.before.step u.event = some (u.after, u.output) := hs
  have hwatched := (step_spec hsound hstep).2
  rw [he] at hstep
  obtain ⟨d1, hd, he1⟩ := Option.map_eq_some_iff.mp hstep
  have hafter := (Prod.mk.inj he1).1
  have hfence : fence = u.before.fence r.instanceId := by
    unfold Daemon.stepTask at hd
    split at hd
    case h_7 =>
      obtain rfl := Option.some.inj hd
      rw [← hafter] at htask
      unfold Daemon.takeFence at htask
      split at htask
      · cases htask
        rfl
      · cases htask
    all_goals contradiction
  rw [hfence, Daemon.drained, List.all_eq_true]
  constructor
  · intro hdrained t i hi hk
    by_cases hstage : i.stage = .taken
    · have hdropped : u.before.strong t = false := by
        rw [Daemon.strong, hi, Option.any_some, hstage]
        rfl
      have hlater : t < d.next ∧ d.strong t = false := by
        refine hr.since (D := fun d => t < d.next ∧ d.strong t = false) ?_
          (hwatched.dropped t (hreg.fresh t i hi) hdropped)
        rintro d e d' o hreach hs ⟨ht, hn⟩
        exact (step_spec (sound_of_reachable hreach)
          (show d.step e = some (d', o) from hs)).2.dropped t ht hn
      exact hlater.2
    · have hmem := hreg.listed t i hi hstage
      rw [hk] at hmem
      simpa only [Bool.not_eq_true'] using hdrained t hmem
  · intro hall t ht
    obtain ⟨i, hi, hk⟩ := hreg.owned _ t ht
    rw [hall t i hi hk]
    rfl

theorem stop_spec (h : TaskSound d d.task) (he : d.step (.task .stop) = some (d', o)) :
    ∃ p r, d.task = .drained p r ∧
      ∀ t i, d.inputs.get t = some i → i.instanceId = r.instanceId → i.stage ≠ .permitted := by
  obtain ⟨d1, hd, -⟩ := Option.map_eq_some_iff.mp he
  unfold Daemon.stepTask at hd
  split at hd
  case h_9 p r htask _ =>
    rw [htask] at h
    refine ⟨p, r, htask, fun t i hi hk hstage => ?_⟩
    cases h.2 t i hi hk hstage
  all_goals contradiction

/-- No input of an agent is between its permission and the end of its write when a switch stops its
holder. None but a startup key is permitted while a switch is pending, no key while it is prepared,
and what is permitted was permitted by such a step. A drain waits for the guards of its agent that
were registered before its fence was taken, and for no other. -/
theorem no_input_slips_past_switch {h : List (Transition Daemon Event (Option Input))}
    (hr : switching.Run h d) :
    (∀ u ∈ h, u.event = .task .stop → ∃ p r, u.before.task = .drained p r ∧
      ∀ t i, u.before.inputs.get t = some i → i.instanceId = r.instanceId →
        i.stage ≠ .permitted) ∧
    (∀ u ∈ h, ∀ i r, u.output = some i → u.before.switches.get i.instanceId = some r →
      (i.kind ≠ .startupKey → r.phase.pending = false) ∧
      (i.kind = .startupKey → r.phase ≠ .prepared ∧ r.phase ≠ .rollbackPrepared)) ∧
    (∀ u ∈ h, ∀ t i, u.after.inputs.get t = some i → i.stage = .permitted →
      (∃ j, u.before.inputs.get t = some j ∧ j.stage = .permitted) ∨
        ∃ j, u.output = some j ∧ j.token = t) ∧
    ∀ newer u older p r fence, h = newer ++ u :: older → u.event = .task .fence →
      u.after.task = .draining p r fence →
      (d.drained fence = true ↔ ∀ t i, u.before.inputs.get t = some i →
        i.instanceId = r.instanceId → d.strong t = false) := by
  have hspec : ∀ u ∈ h, Sound u.before ∧ Watched u.before u.after u.output := by
    intro u hu
    obtain ⟨hreach, hs⟩ := hr.of_mem u hu
    have hsound := sound_of_reachable hreach
    exact ⟨hsound, (step_spec hsound hs).2⟩
  refine ⟨fun u hu he => ?_, fun u hu i r ho hget => ?_, fun u hu => (hspec u hu).2.permitted, ?_⟩
  · obtain ⟨-, hs⟩ := hr.of_mem u hu
    rw [he] at hs
    exact stop_spec (hspec u hu).1.2 hs
  · have hfree := (hspec u hu).2.free i ho r hget
    unfold Pauses at hfree
    split_ifs at hfree with hkind
    · rw [not_or] at hfree
      exact ⟨fun hne => absurd hkind hne, fun _ => hfree⟩
    · exact ⟨fun _ => Bool.eq_false_iff.mpr hfree, fun hk => absurd hk hkind⟩
  · rintro newer u older p r fence rfl he htask
    exact drained_iff hr he htask

/-- A rollback that waits for an input before it stops the holder. -/
theorem no_input_slips_past_switch_drained :
    let i : Instance :=
      ⟨"c", .claude, "/bin/b", [], "/tmp", some "s", .running, true, some 42, false, "push"⟩
    let source : ImportedBackend := ⟨1, "claude", "1.0",
      "0000000000000000000000000000000000000000000000000000000000000000", 1⟩
    let previous : ManagedLaunchIntent := ⟨"11111111-1111-4111-8111-111111111111", "c", source,
      "/bin/a", [], some "s", "push", "/bin/holder", [], "/tmp"⟩
    let record : BackendSwitch := ⟨"33333333-3333-4333-8333-333333333333", "c", previous,
      { source with version := "2.0" }, "/bin/b", some "s", .activated, none, none⟩
    let base : Store := { Store.empty with
      instances := Table.empty.put i
      switches := Table.empty.put record }
    let played := Machine.play Daemon.step []
      ⟨⟨base, .empty, []⟩, false, .empty, .empty, 0, .idle⟩
      [.serve, .begin_ "c" .input, .input 0 .switchInput, .task (.activate "c" record.id true),
        .task .admitted, .task .fence, .input 0 .written, .input 0 .take, .task .drained,
        .input 0 .prune, .task .stop]
    played.1.length = 11 ∧ (played.1.filterMap (·.output)).map (·.token) = [0] ∧
      ∀ u ∈ played.1, u.event = .task .stop → ∃ p r, u.before.task = .drained p r ∧
        ∀ t i, u.before.inputs.get t = some i → i.instanceId = r.instanceId →
          i.stage ≠ .permitted := by
  intro i source previous record base played
  have hr : switching.Run played.1 played.2 :=
    (Machine.Run.start (M := switching) ⟨rfl, rfl, rfl⟩).play fun _ _ _ _ hn => hn
  exact ⟨by decide +kernel, by decide +kernel, (no_input_slips_past_switch hr).1⟩

end Agend.Delivery
