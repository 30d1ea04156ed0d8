import Agend.Runtime.Coherent

/-! The configured program follows the record of its switch, and a launch proves the switch. -/
namespace Agend.Runtime

open Library Store

variable {s s' : Store} {op : Operation} {out : Except String Reply} {k : String}
  {i : Instance} {r record expected : BackendSwitch} {l : ManagedLaunchIntent}

/-- The program that a record says is configured. -/
def BackendSwitch.selected (r : BackendSwitch) : String :=
  match r.phase with
  | .prepared | .cancelled | .restoring | .rolledBack => r.previous.configuredProgram
  | .committed | .rollbackPrepared | .activated => r.targetProgram

/-- Every switch is about a stored agent, configured as the record says. -/
def Store.InStep (s : Store) : Prop :=
  ∀ k r, s.switches.get k = some r → ∃ i, s.instances.get k = some i ∧ i.program = r.selected

theorem selected_of_awaited {program : String} {artifact : ImportedBackend}
    {phase : BackendSwitchPhase} (h : awaited expected = some (program, artifact, phase)) :
    expected.selected = program ∧ ({ expected with
      phase := phase
      problem := none
      activationDeadlineUnixMs := none } : BackendSwitch).selected = program := by
  unfold awaited at h
  split at h
  · rename_i hphase
    cases h
    exact ⟨by rw [BackendSwitch.selected, hphase], rfl⟩
  · rename_i hphase
    cases h
    exact ⟨by rw [BackendSwitch.selected, hphase], rfl⟩
  · cases h

/-- A new record whose agent is configured as it says. -/
theorem InStep.put (h : s.InStep) {k : String} (hk : record.instanceId = k)
    (hget : s.instances.get k = some i) (hprogram : i.program = record.selected) :
    ({ s with switches := s.switches.put record } : Store).InStep := by
  subst hk
  intro k r hr
  rw [Table.get_put] at hr
  split_ifs at hr with hk
  · obtain rfl := Option.some.inj hr
    exact ⟨i, hk ▸ hget, hprogram⟩
  · exact h k r hr

/-- The program of an agent and its record change together. -/
theorem InStep.commit (h : s.InStep) (hk : record.instanceId = k)
    (hget : s.instances.get k = some i) {program : String} (hprogram : program = record.selected) :
    ({ s with
      instances := s.instances.put { i with program := program }
      switches := s.switches.put record } : Store).InStep := by
  subst hk
  have hid : i.id = record.instanceId := (Table.get_eq_some.mp hget).2
  intro k r hr
  rw [Table.get_put] at hr
  rw [Table.get_put, show Instance.id { i with program := program } = _ from hid]
  split_ifs at hr ⊢ with hk
  · obtain rfl := Option.some.inj hr
    exact ⟨_, rfl, hprogram⟩
  · exact h k r hr

theorem inStep_step (hs : runtime.step s op s' out) (h : s.InStep) : s'.InStep := by
  cases shift_of_step hs with
  | still => exact h
  | delivered hop hf =>
    intro k r hr
    rw [hf.switches] at hr
    rw [hf.instances]
    exact h k r hr
  | added i hnone =>
    intro k r hr
    obtain ⟨i1, hi1, hprogram⟩ := h k r hr
    refine ⟨i1, ?_, hprogram⟩
    simp only
    rw [Table.get_put_of_ne, hi1]
    rintro rfl
    rw [hnone] at hi1
    cases hi1
  | removed id =>
    intro k r hr
    simp only [removeInstance] at hr ⊢
    rw [Table.get_erase] at hr ⊢
    split_ifs at hr ⊢
    exact h k r hr
  | @changed _ _ i i' hop hget hid hprogram =>
    intro k r hr
    obtain ⟨i1, hi1, hp1⟩ := h k r hr
    simp only
    rw [Table.get_put]
    split_ifs with hk
    · rw [hk, hid, hget] at hi1
      rw [← Option.some.inj hi1] at hp1
      exact ⟨i', rfl, hprogram.trans hp1⟩
    · exact ⟨i1, hi1, hp1⟩
  | launched => exact h
  | prepared hid hget hold hlaunch hconfig hphase =>
    exact InStep.put h hid hget (by rw [hconfig.1, BackendSwitch.selected, hphase])
  | cancelled hold hphase hget hconfig he =>
    subst he
    exact InStep.put h rfl hget hconfig.1
  | rollbackPrepared hold hphase hget hconfig he =>
    subst he
    exact InStep.put h rfl hget hconfig.1
  | committed hold hphase hlaunch hget hconfig hpid he =>
    obtain ⟨deadline, he⟩ := he
    exact InStep.commit h (by rw [he]) hget (by rw [he]; rfl)
  | restored hold hphase hget hconfig hpid he =>
    obtain ⟨deadline, he⟩ := he
    exact InStep.commit h (by rw [he]) hget (by rw [he]; rfl)
  | noted hold he =>
    obtain ⟨problem, rfl⟩ := he
    obtain ⟨i, hget, hprogram⟩ := h _ _ hold
    exact InStep.put h rfl hget hprogram
  | finished hold hawaited hget hlaunch hready he =>
    subst he
    obtain ⟨-, hselected⟩ := selected_of_awaited hawaited
    exact InStep.put h rfl hget (hready.config.1.trans hselected.symm)

theorem inStep_of_reachable (hr : runtime.Reachable s) : s.InStep := by
  refine hr.invariant ?_ fun _ _ _ _ h hs => inStep_step hs h
  rintro _ rfl k r hget
  cases hget

/-- The record that a call was made for. -/
def Operation.expects : Operation → Option BackendSwitch
  | .cancelSwitch expected | .prepareRollback expected | .commitSwitch expected _ _
  | .switchProblem expected _ _ | .finishSwitch expected _ _ => some expected
  | _ => none

/-- A call made for another record than the stored one changes nothing. -/
theorem unchanged_of_stale (hs : runtime.step s op s' out) (he : op.expects = some expected)
    (hstale : s.switches.get expected.instanceId ≠ some expected) : s' = s := by
  cases shift_of_step hs with
  | still => rfl
  | delivered hop => cases op <;> cases he <;> cases hop
  | changed hop => cases op <;> cases he <;> cases hop
  | cancelled hold | rollbackPrepared hold | committed hold | restored hold | noted hold
  | finished hold =>
    cases he
    exact absurd hold hstale
  | _ => cases he

/-- So does a switch prepared after another one than the stored one. -/
theorem unchanged_of_stale_id {target : ImportedBackend} {program id : String}
    {expectedPrevious : Option String}
    (hs : runtime.step s (.prepareSwitch i target program expectedPrevious id) s' out)
    (hstale : (s.switches.get i.id).map (·.id) ≠ expectedPrevious) : s' = s := by
  cases shift_of_step hs with
  | still => rfl
  | delivered hop | changed hop => cases hop
  | prepared hid hget hold => exact absurd hold hstale

/-- And so does every call that fails. -/
theorem unchanged_of_error {error : String} (hs : runtime.step s op s' (.error error)) : s' = s := by
  have hcall : s.call op = (s', .error error) := hs
  unfold Store.call at hcall
  split at hcall
  · cases hcall
  · exact (Prod.mk.inj hcall).1.symm

/-- The program changes only while no agent is known to run. -/
theorem program_step (hs : runtime.step s op s' out) {i' : Instance}
    (hget : s.instances.get k = some i) (hget' : s'.instances.get k = some i')
    (hne : i'.program ≠ i.program) : i.agentPid = none := by
  have hsame : s'.instances.get k = s.instances.get k → i.agentPid = none := by
    intro he
    rw [he, hget] at hget'
    exact absurd (Option.some.inj hget' ▸ rfl) hne
  have hcommit : ∀ {i1 : Instance} {id program : String}, s.instances.get id = some i1 →
      i1.agentPid = none → s'.instances = s.instances.put { i1 with program := program } →
      i.agentPid = none := by
    intro i1 id program hget1 hpid heq
    have hid : i1.id = id := (Table.get_eq_some.mp hget1).2
    by_cases hk : k = i1.id
    · rw [← hid, ← hk, hget] at hget1
      exact Option.some.inj hget1 ▸ hpid
    · refine hsame ?_
      rw [heq]
      exact Table.get_put_of_ne hk
  cases shift_of_step hs with
  | delivered hop hf => exact hsame (by rw [hf.instances])
  | added i1 hnone =>
    refine hsame (Table.get_put_of_ne ?_)
    rintro rfl
    rw [hnone] at hget
    cases hget
  | removed id =>
    simp only [removeInstance] at hget'
    rw [Table.get_erase] at hget'
    split_ifs at hget' with hk
    rw [hget] at hget'
    exact absurd (Option.some.inj hget' ▸ rfl) hne
  | @changed _ _ i1 i1' hop hget1 hid hprogram =>
    simp only at hget'
    rw [Table.get_put] at hget'
    split_ifs at hget' with hk
    · rw [hk, hid, hget1] at hget
      obtain rfl := Option.some.inj hget
      obtain rfl := Option.some.inj hget'
      exact absurd hprogram hne
    · rw [hget] at hget'
      exact absurd (Option.some.inj hget' ▸ rfl) hne
  | committed hold hphase hlaunch hget1 hconfig hpid he =>
    exact hcommit hget1 hpid rfl
  | restored hold hphase hget1 hconfig hpid he =>
    exact hcommit hget1 hpid rfl
  | _ => exact hsame rfl

section Launches

variable {h : List Call} {t : Call}

/-- The program of the agent was moved, in either direction. -/
def Commits (k : String) (t : Call) : Prop :=
  ∃ expected rollback now reply, t.event = .commitSwitch expected rollback now ∧
    t.output = .ok reply ∧ expected.instanceId = k

/-- A launch of the agent was recorded. -/
def Records (k : String) (l : ManagedLaunchIntent) (t : Call) : Prop :=
  ∃ i launch artifact expectedBinding binding,
    t.event = .prepareLaunch i launch artifact expectedBinding binding ∧
    t.output = .ok (.launch l) ∧ l.instanceId = k

/-- The launch was recorded after every move of the program. -/
def LaunchedSince (k : String) (l : ManagedLaunchIntent) (h : List Call) : Prop :=
  Since (Commits k) (Records k l) h

/-- What the recorded launch can be while a switch is under way. -/
structure Proved (h : List Call) (k : String) (r : BackendSwitch) (l : ManagedLaunchIntent) :
    Prop where
  forward : r.phase = .committed → l = r.previous ∨ LaunchedSince k l h
  target : r.phase = .committed ∨ r.phase = .rollbackPrepared ∨ r.phase = .activated →
    l = r.previous ∨ l.configuredProgram = r.targetProgram
  back : r.phase = .restoring →
    l = r.previous ∨ l.configuredProgram = r.targetProgram ∨ LaunchedSince k l h

theorem not_commits (hno : op.commits out = false) : ¬ Commits k ⟨s, op, s', out⟩ := by
  rintro ⟨expected, rollback, now, reply, rfl, rfl, -⟩
  cases hno

theorem LaunchedSince.cons (h1 : LaunchedSince k l h) (hno : ¬ Commits k t) :
    LaunchedSince k l (t :: h) :=
  ⟨hno, Or.inr h1⟩

theorem Proved.cons (hp : Proved h k r l) (hno : ¬ Commits k t) : Proved (t :: h) k r l :=
  ⟨fun hphase => (hp.forward hphase).imp_right (·.cons hno), hp.target,
    fun hphase => (hp.back hphase).imp_right fun hor => hor.imp_right (·.cons hno)⟩

/-- Nothing is claimed of a launch when the switch is over or has not moved the program. -/
theorem Proved.idle (hphase : r.phase = .prepared ∨ r.phase = .cancelled ∨ r.phase = .rolledBack) :
    Proved h k r l := by
  constructor <;> rcases hphase with hphase | hphase | hphase <;> simp [hphase]

theorem proved_of_run (hr : runtime.Run h s) :
    ∀ k r l, s.switches.get k = some r → s.launches.get k = some l → Proved h k r l := by
  refine Machine.Run.invariant (P := fun h s => ∀ k r l, s.switches.get k = some r →
    s.launches.get k = some l → Proved h k r l) ?_ ?_ hr
  · rintro _ rfl k r l hget
    cases hget
  · intro h s op s' out hr ih hs k r l hr' hl'
    have hin := inStep_of_reachable hr.reachable
    have hkeep : ¬ Commits k ⟨s, op, s', out⟩ → s'.switches.get k = s.switches.get k →
        s'.launches.get k = s.launches.get k → Proved (⟨s, op, s', out⟩ :: h) k r l := by
      intro hno hswitches hlaunches
      exact (ih k r l (hswitches ▸ hr') (hlaunches ▸ hl')).cons hno
    -- a call that writes the record of one agent and leaves the launches
    have hwrite : ∀ {record : BackendSwitch} {id : String}, record.instanceId = id →
        s'.switches = s.switches.put record → s'.launches = s.launches →
        (k ≠ id → ¬ Commits k ⟨s, op, s', out⟩) →
        (∀ l, s.launches.get id = some l → Proved (⟨s, op, s', out⟩ :: h) id record l) →
        Proved (⟨s, op, s', out⟩ :: h) k r l := by
      rintro record _ rfl hswitches hlaunches hno hnew
      rw [hlaunches] at hl'
      by_cases hk : k = record.instanceId
      · rw [hswitches, hk, Table.get_put_self] at hr'
        obtain rfl := Option.some.inj hr'
        subst hk
        exact hnew l hl'
      · exact hkeep (hno hk) (by rw [hswitches, Table.get_put_of_ne hk]) (by rw [hlaunches])
    cases shift_of_step hs with
    | still hno => exact hkeep (not_commits hno) rfl rfl
    | delivered hop hf =>
      refine hkeep (not_commits ?_) (by rw [hf.switches]) (by rw [hf.launches])
      cases op <;> first | rfl | cases hop
    | added i hnone => exact hkeep (not_commits rfl) rfl rfl
    | removed id =>
      simp only [removeInstance] at hr' hl'
      rw [Table.get_erase] at hr' hl'
      split_ifs at hr' with hk
      rw [if_neg hk] at hl'
      exact (ih k r l hr' hl').cons (not_commits rfl)
    | changed hop hget =>
      refine hkeep (not_commits ?_) rfl rfl
      cases op <;> first | rfl | cases hop
    | @launched i _ _ _ _ intent hget hid hprogram =>
      by_cases hk : k = intent.instanceId
      · simp only at hl'
        rw [hk, Table.get_put_self] at hl'
        obtain rfl := Option.some.inj hl'
        obtain ⟨i1, hi1, hselected⟩ := hin k r hr'
        rw [hk, hid, hget] at hi1
        rw [← Option.some.inj hi1, ← hprogram] at hselected
        refine ⟨fun _ => Or.inr ?_, fun hphase => Or.inr ?_, fun _ => Or.inr (Or.inr ?_)⟩
        · exact ⟨not_commits rfl, Or.inl ⟨_, _, _, _, _, rfl, rfl, hk.symm⟩⟩
        · rw [hselected]
          rcases hphase with hphase | hphase | hphase <;> rw [BackendSwitch.selected, hphase]
        · exact ⟨not_commits rfl, Or.inl ⟨_, _, _, _, _, rfl, rfl, hk.symm⟩⟩
      · exact hkeep (not_commits rfl) rfl (Table.get_put_of_ne hk)
    | prepared hid hget hold hlaunch hconfig hphase =>
      exact hwrite hid rfl rfl (fun _ => not_commits rfl) fun _ _ => .idle (Or.inl hphase)
    | cancelled hold hphase hget hconfig he =>
      exact hwrite (by rw [he]) rfl rfl (fun _ => not_commits rfl) fun _ _ =>
        .idle (Or.inr (Or.inl (by rw [he])))
    | @rollbackPrepared i expected record hold hphase hget hconfig he =>
      refine hwrite (by rw [he]) rfl rfl (fun _ => not_commits rfl) fun l hl => ?_
      subst he
      refine ⟨fun h => (by cases h), fun _ => ?_, fun h => by cases h⟩
      exact (ih _ _ l hold hl).target (hphase.symm.imp_right Or.inr)
    | @committed i expected record now hold hphase hlaunch hget hconfig hpid he =>
      obtain ⟨deadline, he⟩ := he
      refine hwrite (by rw [he]) rfl rfl ?_ fun l hl => ?_
      · rintro hk ⟨_, _, _, _, hevent, -, rfl⟩
        cases hevent
        exact hk rfl
      · rw [hlaunch] at hl
        obtain rfl := Option.some.inj hl
        subst he
        exact ⟨fun _ => Or.inl rfl, fun _ => Or.inl rfl, fun _ => Or.inl rfl⟩
    | @restored i expected record now hold hphase hget hconfig hpid he =>
      obtain ⟨deadline, he⟩ := he
      refine hwrite (by rw [he]) rfl rfl ?_ fun l hl => ?_
      · rintro hk ⟨_, _, _, _, hevent, -, rfl⟩
        cases hevent
        exact hk rfl
      · subst he
        refine ⟨fun h => (by cases h), fun h => ?_, fun _ => ?_⟩
        · rcases h with h | h | h <;> cases h
        exact ((ih _ _ l hold hl).target (hphase.imp_right Or.inl)).imp_right Or.inl
    | @noted expected record _ _ hold he =>
      obtain ⟨problem, he⟩ := he
      refine hwrite (by rw [he]) rfl rfl (fun _ => not_commits rfl) fun l hl => ?_
      subst he
      have hp := ih _ _ l hold hl
      refine ⟨fun hphase => ?_, hp.target, fun hphase => ?_⟩
      · exact (hp.forward hphase).imp_right (·.cons (not_commits rfl))
      · exact (hp.back hphase).imp_right fun hor => hor.imp_right (·.cons (not_commits rfl))
    | @finished expected record ready launch artifact program phase hold hawaited hget hlaunch
        hready he =>
      refine hwrite (by rw [he]) rfl rfl (fun _ => not_commits rfl) fun l hl => ?_
      subst he
      unfold awaited at hawaited
      split at hawaited
      · rename_i hphase
        cases hawaited
        exact ⟨fun h => (by cases h), fun _ => (ih _ _ l hold hl).target (Or.inl hphase),
          fun h => by cases h⟩
      · cases hawaited
        exact .idle (Or.inr (Or.inr rfl))
      · cases hawaited

/-- The agent runs the program from its artifact, launched after the program was last moved. -/
def LaunchedWith (older : List Call) (t : Call) (k : String) (r : BackendSwitch) (program : String)
    (artifact : ImportedBackend) : Prop :=
  ∃ ready launch, t.before.instances.get k = some ready ∧ t.before.launches.get k = some launch ∧
    ReadyWith ready launch r program artifact ∧ LaunchedSince k launch older

/-- A record comes into a final phase through `finish` only. -/
theorem finished_of_phase (hs : runtime.step s op s' out) (hget : s'.switches.get k = some r)
    (hnew : ∀ r0, s.switches.get k = some r0 → r0.phase ≠ r.phase)
    (hphase : r.phase = .activated ∨ r.phase = .rolledBack) :
    ∃ expected ready launch program artifact, s.switches.get k = some expected ∧
      awaited expected = some (program, artifact, r.phase) ∧
      s.instances.get k = some ready ∧ s.launches.get k = some launch ∧
      ReadyWith ready launch expected program artifact ∧ r = { expected with
        phase := r.phase
        problem := none
        activationDeadlineUnixMs := none } := by
  have hsame : s'.switches.get k = s.switches.get k → False := by
    intro he
    exact hnew r (he ▸ hget) rfl
  -- a call that writes a record in no final phase, or in the phase it had
  have hwrite : ∀ {record : BackendSwitch} {id : String}, record.instanceId = id →
      s'.switches = s.switches.put record →
      (record.phase = .activated ∨ record.phase = .rolledBack →
        ∃ r0, s.switches.get id = some r0 ∧ r0.phase = record.phase) → False := by
    rintro record _ rfl hswitches hold
    by_cases hk : k = record.instanceId
    · subst hk
      rw [hswitches, Table.get_put_self] at hget
      obtain rfl := Option.some.inj hget
      obtain ⟨r0, hr0, he⟩ := hold hphase
      exact hnew r0 hr0 he
    · exact hsame (by rw [hswitches, Table.get_put_of_ne hk])
  cases shift_of_step hs with
  | delivered hop hf => exact (hsame (by rw [hf.switches])).elim
  | removed id =>
    simp only [removeInstance] at hget
    rw [Table.get_erase] at hget
    split_ifs at hget with hk
    exact (hnew r hget rfl).elim
  | prepared hid hgeti hold hlaunch hconfig hp =>
    refine (hwrite hid rfl ?_).elim
    rw [hp]
    rintro (hno | hno) <;> cases hno
  | cancelled hold hp hgeti hconfig he =>
    refine (hwrite (by rw [he]) rfl ?_).elim
    rw [he]
    rintro (hno | hno) <;> cases hno
  | rollbackPrepared hold hp hgeti hconfig he =>
    refine (hwrite (by rw [he]) rfl ?_).elim
    rw [he]
    rintro (hno | hno) <;> cases hno
  | committed hold hp hlaunch hgeti hconfig hpid he =>
    obtain ⟨deadline, he⟩ := he
    refine (hwrite (by rw [he]) rfl ?_).elim
    rw [he]
    rintro (hno | hno) <;> cases hno
  | restored hold hp hgeti hconfig hpid he =>
    obtain ⟨deadline, he⟩ := he
    refine (hwrite (by rw [he]) rfl ?_).elim
    rw [he]
    rintro (hno | hno) <;> cases hno
  | noted hold he =>
    obtain ⟨problem, he⟩ := he
    refine (hwrite (by rw [he]) rfl fun _ => ⟨_, hold, ?_⟩).elim
    rw [he]
  | @finished expected record ready launch artifact program phase hold hawaited hgeti hlaunch
      hready he =>
    simp only at hget
    rw [Table.get_put] at hget
    split_ifs at hget with hk
    · obtain rfl := Option.some.inj hget
      have hid : k = expected.instanceId := by rw [hk, he]
      rw [hid]
      refine ⟨expected, ready, launch, program, artifact, hold, ?_, hgeti, hlaunch, hready, ?_⟩
      · rw [hawaited, he]
      · rw [he]
    · exact (hnew r hget rfl).elim
  | _ => exact (hsame rfl).elim

theorem ReadyWith.of_expected {ready : Instance} {program : String} {artifact : ImportedBackend}
    (h : ReadyWith ready l expected program artifact)
    (he : r = { expected with
      phase := r.phase
      problem := none
      activationDeadlineUnixMs := none }) : ReadyWith ready l r program artifact := by
  rw [he]
  obtain ⟨h1, h2, h3, h4, h5, h6, h7, h8, h9, h10, h11, h12, h13⟩ := h
  exact ⟨h1, h2, h3, h4, h5, h6, h7, h8, h9, h10, h11, h12, h13⟩

theorem launchedWith_activated {older : List Call} (holder : runtime.Run older t.before)
    (hs : runtime.step t.before t.event t.after t.output) (hget : t.after.switches.get k = some r)
    (hnew : ∀ r0, t.before.switches.get k = some r0 → r0.phase ≠ r.phase)
    (hphase : r.phase = .activated) : LaunchedWith older t k r r.targetProgram r.target := by
  obtain ⟨expected, ready, launch, program, artifact, hold, hawaited, hgeti, hlaunch, hready, he⟩ :=
    finished_of_phase hs hget hnew (Or.inl hphase)
  have hp := proved_of_run holder k expected launch hold hlaunch
  rw [hphase] at hawaited
  unfold awaited at hawaited
  split at hawaited
  · rename_i hcommitted
    cases hawaited
    refine ⟨ready, launch, hgeti, hlaunch, ?_, ?_⟩
    · have hr := hready.of_expected he
      rw [he] at hr ⊢
      exact hr
    · exact (hp.forward hcommitted).resolve_left fun heq => hready.binding (congrArg _ heq)
  · cases hawaited
  · cases hawaited

/-- Back on the source, an old launch is told apart by its program. -/
theorem launchedWith_rolledBack {older : List Call} (holder : runtime.Run older t.before)
    (hs : runtime.step t.before t.event t.after t.output) (hget : t.after.switches.get k = some r)
    (hnew : ∀ r0, t.before.switches.get k = some r0 → r0.phase ≠ r.phase)
    (hphase : r.phase = .rolledBack) (hdiffer : r.targetProgram ≠ r.previous.configuredProgram) :
    LaunchedWith older t k r r.previous.configuredProgram r.previous.artifact := by
  obtain ⟨expected, ready, launch, program, artifact, hold, hawaited, hgeti, hlaunch, hready, he⟩ :=
    finished_of_phase hs hget hnew (Or.inr hphase)
  have hp := proved_of_run holder k expected launch hold hlaunch
  rw [hphase] at hawaited
  unfold awaited at hawaited
  split at hawaited
  · cases hawaited
  · rename_i hrestoring
    cases hawaited
    refine ⟨ready, launch, hgeti, hlaunch, ?_, ?_⟩
    · have hr := hready.of_expected he
      rw [he] at hr ⊢
      exact hr
    · rcases hp.back hrestoring with heq | hprogram | hsince
      · exact absurd (congrArg _ heq) hready.binding
      · rw [he] at hdiffer
        exact absurd (hprogram.symm.trans hready.program) hdiffer
      · exact hsince
  · cases hawaited

/-- The configured program is the source's or the target's as the record says; a call for another
record, or one that fails, changes nothing; the program changes only while no agent runs; a switch
or a rollback is over only once the agent runs the selected program and artifact from a launch
recorded after the program was moved; and no content starts while a switch is pending. -/
theorem backend_switch_in_step (hr : runtime.Run h s) :
    (∀ k r, s.switches.get k = some r → ∃ i, s.instances.get k = some i ∧
      i.program = match r.phase with
        | .prepared | .cancelled | .restoring | .rolledBack => r.previous.configuredProgram
        | .committed | .rollbackPrepared | .activated => r.targetProgram) ∧
    (∀ t ∈ h, (∀ expected, t.event.expects = some expected →
        t.before.switches.get expected.instanceId ≠ some expected → t.after = t.before) ∧
      (∀ i target program expectedPrevious id,
        t.event = .prepareSwitch i target program expectedPrevious id →
        (t.before.switches.get i.id).map (·.id) ≠ expectedPrevious → t.after = t.before) ∧
      ∀ error, t.output = .error error → t.after = t.before) ∧
    (∀ t ∈ h, ∀ k i i', t.before.instances.get k = some i → t.after.instances.get k = some i' →
      i'.program ≠ i.program → i.agentPid = none) ∧
    (∀ newer t older k r, h = newer ++ t :: older → t.after.switches.get k = some r →
      (∀ r0, t.before.switches.get k = some r0 → r0.phase ≠ r.phase) →
      (r.phase = .activated → LaunchedWith older t k r r.targetProgram r.target) ∧
      (r.phase = .rolledBack → r.targetProgram ≠ r.previous.configuredProgram →
        LaunchedWith older t k r r.previous.configuredProgram r.previous.artifact)) ∧
    (∀ t ∈ h, ∀ new now d record, t.event = .reserve new now →
      t.before.switches.get new.instanceId = some record → record.phase.pending = true →
      t.output ≠ .ok (.reservation (.started d))) := by
  refine ⟨inStep_of_reachable hr.reachable, ?_, ?_, ?_, ?_⟩
  · intro t ht
    obtain ⟨-, hs⟩ := hr.of_mem t ht
    refine ⟨fun expected he hstale => unchanged_of_stale hs he hstale, ?_, ?_⟩
    · intro i target program expectedPrevious id he hstale
      rw [he] at hs
      exact unchanged_of_stale_id hs hstale
    · intro error he
      rw [he] at hs
      exact unchanged_of_error hs
  · intro t ht k i i' hget hget' hne
    obtain ⟨-, hs⟩ := hr.of_mem t ht
    exact program_step hs hget hget' hne
  · rintro newer t older k r rfl hget hnew
    obtain ⟨holder, hs⟩ := hr.split
    exact ⟨launchedWith_activated holder hs hget hnew, launchedWith_rolledBack holder hs hget hnew⟩
  · intro t ht new now d record he hget hpending hout
    obtain ⟨-, hs⟩ := hr.of_mem t ht
    obtain ⟨new', now', m, d', he', -, -, hst, -⟩ := started_cases hs ⟨new, now, d, he, hout, rfl, rfl⟩
    rw [he] at he'
    cases he'
    rw [hst.settled record hget] at hpending
    cases hpending

end Launches

/-- A switch from one program to another that is carried through. -/
theorem backend_switch_in_step_activated :
    let i : Instance :=
      ⟨"c", .claude, "/bin/a", [], "/tmp", some "s", .running, true, none, false, "push"⟩
    let source : ImportedBackend := ⟨1, "claude", "1.0",
      "0000000000000000000000000000000000000000000000000000000000000000", 1⟩
    let target : ImportedBackend := { source with version := "2.0" }
    let holder : HolderLaunch := ⟨"c", .claude, "/bin/holder", [], "/tmp"⟩
    let previous : ManagedLaunchIntent := ⟨"11111111-1111-4111-8111-111111111111", "c", source,
      "/bin/a", [], some "s", "push", "/bin/holder", [], "/tmp"⟩
    let launch : ManagedLaunchIntent := { previous with
      binding := "22222222-2222-4222-8222-222222222222"
      artifact := target
      configuredProgram := "/bin/b" }
    let prepared : BackendSwitch := ⟨"33333333-3333-4333-8333-333333333333", "c", previous, target,
      "/bin/b", some "s", .prepared, none, none⟩
    let committed : BackendSwitch := { prepared with
      phase := .committed
      activationDeadlineUnixMs := some 300000 }
    let moved : Instance := { i with program := "/bin/b" }
    let played := Machine.play (fun s op => some (Store.call s op)) [] .empty [.addInstance i,
      .prepareLaunch i holder source none previous.binding,
      .prepareSwitch i target "/bin/b" none prepared.id, .commitSwitch prepared false 0,
      .prepareLaunch moved holder target (some previous.binding) launch.binding,
      .setAgentPid "c" (some 42),
      .finishSwitch committed { moved with agentPid := some 42 } launch]
    (played.2.switches.get "c").map (·.phase) = some .activated ∧
      ∀ k r, played.2.switches.get k = some r → ∃ i, played.2.instances.get k = some i ∧
        i.program = match r.phase with
          | .prepared | .cancelled | .restoring | .rolledBack => r.previous.configuredProgram
          | .committed | .rollbackPrepared | .activated => r.targetProgram := by
  exact ⟨by decide +kernel, (backend_switch_in_step
    (.play (fun _ _ _ _ => Option.some.inj) (.start rfl))).1⟩

end Agend.Runtime
