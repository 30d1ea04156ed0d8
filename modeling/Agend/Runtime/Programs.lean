import Agend.Runtime.Attempts

/-! What each call on agents, launches and switches does to the tables. -/
namespace Agend.Runtime

open Library Store

variable {s s' : Store} {i : Instance} {expected record current : BackendSwitch}
  {id program error : String} {now : Nat}

namespace Store

theorem writeSwitch_eq_ok (h : s.writeSwitch record = .ok s') :
    s' = { s with switches := s.switches.put record } :=
  (Except.ok.inj (require_bind_eq_ok.mp h).2).symm

theorem readSwitch_eq_ok {found : Option BackendSwitch} (h : s.readSwitch id = .ok found) :
    s.switches.get id = found := by
  unfold readSwitch at h
  split at h
  · obtain rfl := Except.ok.inj h
    assumption
  · split_ifs at h
    obtain rfl := Except.ok.inj h
    assumption

theorem readLaunch_eq_ok {found : Option ManagedLaunchIntent} (h : s.readLaunch id = .ok found) :
    s.launches.get id = found := by
  unfold readLaunch at h
  split at h
  · obtain rfl := Except.ok.inj h
    assumption
  · split_ifs at h
    obtain rfl := Except.ok.inj h
    assumption

/-- A call goes on only when its caller saw the record as it is. -/
theorem expectSwitch_eq_ok (h : s.expectSwitch expected error = .ok current) :
    current = expected ∧ s.switches.get expected.instanceId = some expected := by
  unfold expectSwitch at h
  rw [bind_eq_ok] at h
  obtain ⟨found, hfound, h⟩ := h
  rw [bind_eq_ok] at h
  obtain ⟨record, hrecord, h⟩ := h
  rw [require_bind_eq_ok] at h
  obtain ⟨rfl, h⟩ := h
  obtain rfl := Except.ok.inj h
  rw [readSwitch_eq_ok hfound]
  exact ⟨rfl, okOr_eq_ok.mp hrecord⟩

end Store

/-- The calls on messages. -/
def Operation.delivers : Operation → Bool
  | .claimMessage .. | .advance .. | .reserve .. | .written .. | .acknowledge .. | .abandon ..
  | .abandonUnknown .. | .release .. => true
  | _ => false

/-- The calls on one agent that leave its program alone. -/
def Operation.changes : Operation → Bool
  | .setStatus .. | .setSessionId .. | .setAgentPid .. | .setInboxDelivery .. => true
  | _ => false

/-- A commit that succeeds. -/
def Operation.commits : Operation → Except String Reply → Bool
  | .commitSwitch .., .ok _ => true
  | _, _ => false

/-- What a call does to the agents, launches and switches. -/
inductive Shift (s : Store) : Operation → Store → Except String Reply → Prop
  | still {op : Operation} {out : Except String Reply} (hno : op.commits out = false) :
      Shift s op s out
  | delivered {op : Operation} {s' : Store} {out : Except String Reply}
      (hop : op.delivers = true) (hf : Frame s s') : Shift s op s' out
  | added {out : Except String Reply} (i : Instance) (hnone : s.instances.get i.id = none) :
      Shift s (.addInstance i) { s with instances := s.instances.put i } out
  | removed {out : Except String Reply} (id : String) :
      Shift s (.removeInstance id) (s.removeInstance id).1 out
  | changed {op : Operation} {out : Except String Reply} {i i' : Instance}
      (hop : op.changes = true) (hget : s.instances.get i.id = some i) (hid : i'.id = i.id)
      (hprogram : i'.program = i.program) :
      Shift s op { s with instances := s.instances.put i' } out
  | launched {i : Instance} {launch : HolderLaunch} {artifact : ImportedBackend}
      {expectedBinding : Option String} {binding : String} {intent : ManagedLaunchIntent}
      (hget : s.instances.get i.id = some i) (hid : intent.instanceId = i.id)
      (hprogram : intent.configuredProgram = i.program) :
      Shift s (.prepareLaunch i launch artifact expectedBinding binding)
        { s with launches := s.launches.put intent } (.ok (.launch intent))
  | prepared {i : Instance} {target : ImportedBackend} {program : String}
      {expectedPrevious : Option String} {id : String} {record : BackendSwitch}
      (hid : record.instanceId = i.id) (hget : s.instances.get i.id = some i)
      (hold : (s.switches.get i.id).map (·.id) = expectedPrevious)
      (hlaunch : s.launches.get i.id = some record.previous)
      (hconfig : configMatches i record record.previous.configuredProgram)
      (hphase : record.phase = .prepared) :
      Shift s (.prepareSwitch i target program expectedPrevious id)
        { s with switches := s.switches.put record } (.ok (.backendSwitch record))
  | cancelled {i : Instance} {expected record : BackendSwitch}
      (hold : s.switches.get expected.instanceId = some expected) (hphase : expected.phase = .prepared)
      (hget : s.instances.get expected.instanceId = some i)
      (hconfig : configMatches i expected expected.previous.configuredProgram)
      (he : record = { expected with
        phase := .cancelled
        problem := none
        activationDeadlineUnixMs := none }) :
      Shift s (.cancelSwitch expected) { s with switches := s.switches.put record }
        (.ok (.backendSwitch record))
  | rollbackPrepared {i : Instance} {expected record : BackendSwitch}
      (hold : s.switches.get expected.instanceId = some expected)
      (hphase : expected.phase = .activated ∨ expected.phase = .committed)
      (hget : s.instances.get expected.instanceId = some i)
      (hconfig : configMatches i expected expected.targetProgram)
      (he : record = { expected with phase := .rollbackPrepared }) :
      Shift s (.prepareRollback expected) { s with switches := s.switches.put record }
        (.ok (.backendSwitch record))
  | committed {i : Instance} {expected record : BackendSwitch} {now : Nat}
      (hold : s.switches.get expected.instanceId = some expected)
      (hphase : expected.phase = .prepared)
      (hlaunch : s.launches.get expected.instanceId = some expected.previous)
      (hget : s.instances.get expected.instanceId = some i)
      (hconfig : configMatches i expected expected.previous.configuredProgram)
      (hpid : i.agentPid = none)
      (he : ∃ deadline, record = { expected with
        phase := .committed
        activationDeadlineUnixMs := deadline }) :
      Shift s (.commitSwitch expected false now)
        { s with
          instances := s.instances.put { i with program := expected.targetProgram }
          switches := s.switches.put record } (.ok (.backendSwitch record))
  | restored {i : Instance} {expected record : BackendSwitch} {now : Nat}
      (hold : s.switches.get expected.instanceId = some expected)
      (hphase : expected.phase = .committed ∨ expected.phase = .rollbackPrepared)
      (hget : s.instances.get expected.instanceId = some i)
      (hconfig : configMatches i expected expected.targetProgram) (hpid : i.agentPid = none)
      (he : ∃ deadline, record = { expected with
        phase := .restoring
        activationDeadlineUnixMs := deadline }) :
      Shift s (.commitSwitch expected true now)
        { s with
          instances := s.instances.put { i with program := expected.previous.configuredProgram }
          switches := s.switches.put record } (.ok (.backendSwitch record))
  | noted {expected record : BackendSwitch} {reason : String} {now : Nat}
      (hold : s.switches.get expected.instanceId = some expected)
      (he : ∃ problem, record = { expected with problem := problem }) :
      Shift s (.switchProblem expected reason now) { s with switches := s.switches.put record }
        (.ok (.backendSwitch record))
  | finished {expected record : BackendSwitch} {ready : Instance} {launch : ManagedLaunchIntent}
      {artifact : ImportedBackend} {program : String} {phase : BackendSwitchPhase}
      (hold : s.switches.get expected.instanceId = some expected)
      (hawaited : awaited expected = some (program, artifact, phase))
      (hget : s.instances.get expected.instanceId = some ready)
      (hlaunch : s.launches.get expected.instanceId = some launch)
      (hready : ReadyWith ready launch expected program artifact)
      (he : record = { expected with
        phase := phase
        problem := none
        activationDeadlineUnixMs := none }) :
      Shift s (.finishSwitch expected ready launch) { s with switches := s.switches.put record }
        (.ok (.backendSwitch record))

section Calls

variable {launch : ManagedLaunchIntent} {target artifact : ImportedBackend}

theorem shift_problem {reason : String} (h : s.backendSwitchProblem expected reason now = .ok (s', record)) :
    Shift s (.switchProblem expected reason now) s' (.ok (.backendSwitch record)) := by
  unfold backendSwitchProblem at h
  rw [require_bind_eq_ok] at h
  obtain ⟨-, h⟩ := h
  rw [bind_eq_ok] at h
  obtain ⟨current, hcurrent, h⟩ := h
  obtain ⟨rfl, hold⟩ := expectSwitch_eq_ok hcurrent
  rw [require_bind_eq_ok] at h
  obtain ⟨-, h⟩ := h
  simp only at h
  split_ifs at h
  · obtain ⟨rfl, rfl⟩ := Prod.mk.inj (Except.ok.inj h)
    exact .still rfl
  · rw [bind_eq_ok] at h
    obtain ⟨s1, hs1, h⟩ := h
    obtain ⟨rfl, rfl⟩ := Prod.mk.inj (Except.ok.inj h)
    rw [writeSwitch_eq_ok hs1]
    exact .noted hold ⟨_, rfl⟩

theorem shift_prepare {expectedPrevious : Option String}
    (h : s.prepareBackendSwitch i target program expectedPrevious id = .ok (s', record)) :
    Shift s (.prepareSwitch i target program expectedPrevious id) s'
      (.ok (.backendSwitch record)) := by
  unfold prepareBackendSwitch at h
  rw [require_bind_eq_ok] at h
  obtain ⟨-, h⟩ := h
  rw [require_bind_eq_ok] at h
  obtain ⟨hget, h⟩ := h
  rw [bind_eq_ok] at h
  obtain ⟨old, hold, h⟩ := h
  rw [require_bind_eq_ok] at h
  obtain ⟨⟨hprevious, -⟩, h⟩ := h
  rw [bind_eq_ok] at h
  obtain ⟨found, hfound, h⟩ := h
  rw [bind_eq_ok] at h
  obtain ⟨previous, hlaunch, h⟩ := h
  rw [require_bind_eq_ok] at h
  obtain ⟨⟨hconfig, -⟩, h⟩ := h
  rw [bind_eq_ok] at h
  obtain ⟨s1, hs1, h⟩ := h
  obtain ⟨rfl, rfl⟩ := Prod.mk.inj (Except.ok.inj h)
  rw [writeSwitch_eq_ok hs1]
  refine .prepared rfl hget ?_ ?_ hconfig rfl
  · rw [readSwitch_eq_ok hold]
    exact hprevious
  · rw [readLaunch_eq_ok hfound]
    exact okOr_eq_ok.mp hlaunch

theorem shift_cancel (h : s.cancelBackendSwitch expected = .ok (s', record)) :
    Shift s (.cancelSwitch expected) s' (.ok (.backendSwitch record)) := by
  unfold cancelBackendSwitch at h
  rw [bind_eq_ok] at h
  obtain ⟨current, hcurrent, h⟩ := h
  obtain ⟨rfl, hold⟩ := expectSwitch_eq_ok hcurrent
  rw [require_bind_eq_ok] at h
  obtain ⟨hphase, h⟩ := h
  rw [bind_eq_ok] at h
  obtain ⟨i, hi, h⟩ := h
  rw [require_bind_eq_ok] at h
  obtain ⟨hconfig, h⟩ := h
  rw [bind_eq_ok] at h
  obtain ⟨s1, hs1, h⟩ := h
  obtain ⟨rfl, rfl⟩ := Prod.mk.inj (Except.ok.inj h)
  rw [writeSwitch_eq_ok hs1]
  exact .cancelled hold hphase (okOr_eq_ok.mp hi) hconfig rfl

theorem shift_rollback (h : s.prepareBackendRollback expected = .ok (s', record)) :
    Shift s (.prepareRollback expected) s' (.ok (.backendSwitch record)) := by
  unfold prepareBackendRollback at h
  rw [bind_eq_ok] at h
  obtain ⟨current, hcurrent, h⟩ := h
  obtain ⟨rfl, hold⟩ := expectSwitch_eq_ok hcurrent
  rw [require_bind_eq_ok] at h
  obtain ⟨hphase, h⟩ := h
  rw [bind_eq_ok] at h
  obtain ⟨i, hi, h⟩ := h
  rw [require_bind_eq_ok] at h
  obtain ⟨hconfig, h⟩ := h
  rw [bind_eq_ok] at h
  obtain ⟨s1, hs1, h⟩ := h
  obtain ⟨rfl, rfl⟩ := Prod.mk.inj (Except.ok.inj h)
  rw [writeSwitch_eq_ok hs1]
  exact .rollbackPrepared hold hphase (okOr_eq_ok.mp hi) hconfig rfl

/-- A commit moves the phase and the program together. -/
theorem commitTo_eq_ok {phase : BackendSwitchPhase} {source destination : String}
    (h : s.commitTo current phase source destination now = .ok (s', record)) :
    ∃ i, s.instances.get current.instanceId = some i ∧ configMatches i current source ∧
      i.agentPid = none ∧
      (∃ deadline, record = { current with
        phase := phase
        activationDeadlineUnixMs := deadline }) ∧
      s' = { s with
        instances := s.instances.put { i with program := destination }
        switches := s.switches.put record } := by
  unfold commitTo at h
  rw [bind_eq_ok] at h
  obtain ⟨i, hi, h⟩ := h
  rw [require_bind_eq_ok] at h
  obtain ⟨⟨hconfig, hpid⟩, h⟩ := h
  rw [bind_eq_ok] at h
  obtain ⟨s1, hs1, h⟩ := h
  obtain ⟨rfl, rfl⟩ := Prod.mk.inj (Except.ok.inj h)
  exact ⟨i, okOr_eq_ok.mp hi, hconfig, hpid, ⟨_, rfl⟩, writeSwitch_eq_ok hs1⟩

theorem shift_commit {rollback : Bool}
    (h : s.commitBackendSwitch expected rollback now = .ok (s', record)) :
    Shift s (.commitSwitch expected rollback now) s' (.ok (.backendSwitch record)) := by
  unfold commitBackendSwitch at h
  rw [bind_eq_ok] at h
  obtain ⟨current, hcurrent, h⟩ := h
  obtain ⟨rfl, hold⟩ := expectSwitch_eq_ok hcurrent
  cases rollback with
  | true =>
    simp only [if_true] at h
    rw [require_bind_eq_ok] at h
    obtain ⟨hphase, h⟩ := h
    obtain ⟨i, hget, hconfig, hpid, he, rfl⟩ := commitTo_eq_ok h
    exact .restored hold hphase hget hconfig hpid he
  | false =>
    simp only [Bool.false_eq_true, if_false] at h
    rw [require_bind_eq_ok] at h
    obtain ⟨hphase, h⟩ := h
    rw [bind_eq_ok] at h
    obtain ⟨found, hfound, h⟩ := h
    rw [require_bind_eq_ok] at h
    obtain ⟨rfl, h⟩ := h
    obtain ⟨i, hget, hconfig, hpid, he, rfl⟩ := commitTo_eq_ok h
    exact .committed hold hphase (readLaunch_eq_ok hfound) hget hconfig hpid he

theorem shift_finish {ready : Instance}
    (h : s.finishBackendSwitch expected ready launch = .ok (s', record)) :
    Shift s (.finishSwitch expected ready launch) s' (.ok (.backendSwitch record)) := by
  unfold finishBackendSwitch at h
  rw [bind_eq_ok] at h
  obtain ⟨current, hcurrent, h⟩ := h
  obtain ⟨rfl, hold⟩ := expectSwitch_eq_ok hcurrent
  rw [bind_eq_ok] at h
  obtain ⟨⟨program, artifact, phase⟩, hawaited, h⟩ := h
  simp only at h
  rw [bind_eq_ok] at h
  obtain ⟨stored, hstored, h⟩ := h
  rw [require_bind_eq_ok] at h
  obtain ⟨⟨hget, rfl, hready⟩, h⟩ := h
  rw [bind_eq_ok] at h
  obtain ⟨s1, hs1, h⟩ := h
  obtain ⟨rfl, rfl⟩ := Prod.mk.inj (Except.ok.inj h)
  rw [writeSwitch_eq_ok hs1]
  exact .finished hold (okOr_eq_ok.mp hawaited) hget (readLaunch_eq_ok hstored) hready rfl

theorem shift_launch {prepared : HolderLaunch} {expectedBinding : Option String}
    {binding : String}
    (h : s.prepareManagedLaunch i prepared artifact expectedBinding binding = .ok (s', launch)) :
    Shift s (.prepareLaunch i prepared artifact expectedBinding binding) s'
      (.ok (.launch launch)) := by
  unfold prepareManagedLaunch at h
  rw [require_bind_eq_ok] at h
  obtain ⟨-, h⟩ := h
  rw [require_bind_eq_ok] at h
  obtain ⟨hget, h⟩ := h
  rw [bind_eq_ok] at h
  obtain ⟨previous, -, h⟩ := h
  rw [require_bind_eq_ok] at h
  obtain ⟨-, h⟩ := h
  rw [require_bind_eq_ok] at h
  obtain ⟨-, h⟩ := h
  obtain ⟨rfl, rfl⟩ := Prod.mk.inj (Except.ok.inj h)
  exact .launched hget rfl rfl

theorem shift_changed {op : Operation} {out : Except String Reply} {i' : Instance}
    (hop : op.changes = true) (hi : okOr (s.instances.get id) error = .ok i) (hid : i'.id = i.id)
    (hprogram : i'.program = i.program) :
    Shift s op { s with instances := s.instances.put i' } out := by
  have hget := okOr_eq_ok.mp hi
  obtain rfl := (Table.get_eq_some.mp hget).2
  exact .changed hop hget hid hprogram

theorem shift_setInbox {out : Except String Reply} :
    Shift s (.setInboxDelivery id) (s.setInboxDelivery id) out := by
  unfold setInboxDelivery
  split
  · rename_i i hget
    obtain rfl := (Table.get_eq_some.mp hget).2
    exact .changed rfl hget rfl rfl
  · exact .still rfl

/-- Each call, also one that fails, does one of these. -/
theorem shift_of_step {op : Operation} {out : Except String Reply}
    (hs : runtime.step s op s' out) : Shift s op s' out := by
  have hcall : s.call op = (s', out) := hs
  unfold Store.call at hcall
  split at hcall
  · rename_i s1 reply hexec
    obtain ⟨rfl, rfl⟩ := Prod.mk.inj hcall
    cases op with
    | claimMessage new now =>
      obtain ⟨⟨s2, c⟩, h, he⟩ := map_eq_ok.mp hexec
      cases he
      exact .delivered rfl (frame_claimMessage h)
    | advance id next turnId now =>
      obtain ⟨⟨s2, r⟩, h, he⟩ := map_eq_ok.mp hexec
      cases he
      exact .delivered rfl (frame_advance h)
    | reserve new now =>
      obtain ⟨⟨s2, r⟩, h, he⟩ := map_eq_ok.mp hexec
      cases he
      rcases reserve_eq_ok h with ⟨rfl, -⟩ | ⟨m, d, d', -, -, -, hw⟩
      · exact .still rfl
      · exact .delivered rfl hw.toFrame
    | written id delivery now =>
      obtain ⟨⟨s2, r⟩, h, he⟩ := map_eq_ok.mp hexec
      cases he
      obtain ⟨m, m', d, d', a, -, -, -, -, -, -, hw⟩ := written_eq_ok h
      exact .delivered rfl hw.toFrame
    | acknowledge ack eventId now =>
      obtain ⟨⟨s2, r⟩, h, he⟩ := map_eq_ok.mp hexec
      cases he
      obtain ⟨m, d, a, -, -, -, -, -, -, -, hor⟩ := acknowledge_eq_ok h
      rcases hor with ⟨rfl, -⟩ | ⟨-, -, -, -, m', -, hw⟩
      · exact .still rfl
      · exact .delivered rfl hw.toFrame
    | abandon id reason now =>
      obtain ⟨⟨s2, r⟩, h, he⟩ := map_eq_ok.mp hexec
      cases he
      rcases abandon_eq_ok h with rfl | ⟨m, m', d, -, -, -, hw⟩
      · exact .still rfl
      · exact .delivered rfl hw.toFrame
    | abandonUnknown id reason now =>
      obtain ⟨s2, h, he⟩ := map_eq_ok.mp hexec
      cases he
      rcases abandonUnknown_eq_ok h with rfl | ⟨m, m', d, -, -, -, hw⟩
      · exact .still rfl
      · exact .delivered rfl hw.toFrame
    | release message delivery =>
      obtain ⟨s2, h, he⟩ := map_eq_ok.mp hexec
      cases he
      obtain ⟨m, d, a, -, -, -, -, -, -, hw⟩ := release_eq_ok h
      exact .delivered rfl hw.toFrame
    | addInstance i =>
      obtain ⟨s2, h, he⟩ := map_eq_ok.mp hexec
      cases he
      unfold addInstance at h
      rw [require_bind_eq_ok] at h
      obtain ⟨-, h⟩ := h
      rw [require_bind_eq_ok] at h
      obtain ⟨hnone, h⟩ := h
      obtain rfl := Except.ok.inj h
      exact .added i hnone
    | removeInstance id =>
      obtain ⟨rfl, rfl⟩ := Prod.mk.inj (Except.ok.inj hexec)
      exact .removed id
    | setStatus id status =>
      obtain ⟨s2, h, he⟩ := map_eq_ok.mp hexec
      cases he
      unfold setStatus at h
      rw [bind_eq_ok] at h
      obtain ⟨i, hi, h⟩ := h
      obtain rfl := Except.ok.inj h
      exact shift_changed rfl hi rfl rfl
    | setSessionId id session =>
      obtain ⟨s2, h, he⟩ := map_eq_ok.mp hexec
      cases he
      unfold setSessionId at h
      rw [bind_eq_ok] at h
      obtain ⟨i, hi, h⟩ := h
      obtain rfl := Except.ok.inj h
      exact shift_changed rfl hi rfl rfl
    | setAgentPid id pid =>
      obtain ⟨s2, h, he⟩ := map_eq_ok.mp hexec
      cases he
      unfold setAgentPid at h
      rw [bind_eq_ok] at h
      obtain ⟨i, hi, h⟩ := h
      obtain rfl := Except.ok.inj h
      exact shift_changed rfl hi rfl rfl
    | setInboxDelivery id =>
      obtain ⟨rfl, rfl⟩ := Prod.mk.inj (Except.ok.inj hexec)
      exact shift_setInbox
    | prepareLaunch i launch artifact expectedBinding binding =>
      obtain ⟨⟨s2, r⟩, h, he⟩ := map_eq_ok.mp hexec
      cases he
      exact shift_launch h
    | prepareSwitch i target program expectedPrevious id =>
      obtain ⟨⟨s2, r⟩, h, he⟩ := map_eq_ok.mp hexec
      cases he
      exact shift_prepare h
    | cancelSwitch expected =>
      obtain ⟨⟨s2, r⟩, h, he⟩ := map_eq_ok.mp hexec
      cases he
      exact shift_cancel h
    | prepareRollback expected =>
      obtain ⟨⟨s2, r⟩, h, he⟩ := map_eq_ok.mp hexec
      cases he
      exact shift_rollback h
    | commitSwitch expected rollback now =>
      obtain ⟨⟨s2, r⟩, h, he⟩ := map_eq_ok.mp hexec
      cases he
      exact shift_commit h
    | switchProblem expected reason now =>
      obtain ⟨⟨s2, r⟩, h, he⟩ := map_eq_ok.mp hexec
      cases he
      exact shift_problem h
    | finishSwitch expected ready launch =>
      obtain ⟨⟨s2, r⟩, h, he⟩ := map_eq_ok.mp hexec
      cases he
      exact shift_finish h
  · obtain ⟨rfl, rfl⟩ := Prod.mk.inj hcall
    refine .still ?_
    cases op <;> rfl

/-- The other calls leave the messages alone. -/
theorem Shift.deliveries_eq {op : Operation} {out : Except String Reply} (h : Shift s op s' out)
    (hop : op.delivers = false) : s'.messages = s.messages ∧ s'.deliveries = s.deliveries := by
  cases h with
  | delivered hyes => exact absurd (hyes.symm.trans hop) nofun
  | _ => exact ⟨rfl, rfl⟩

end Calls

end Agend.Runtime
