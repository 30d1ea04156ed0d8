import Agend.Engine.Booking
import Agend.Engine.Heeding

/-! Removing an instance while the engine runs: the supervisor looks the instance up, asks what it
holds, stops its holder, and deletes the row last. -/
namespace Agend.Engine

open Agend.Library Agend.Pipeline

/-- The next store call of a removal. -/
inductive Removal where
  | idle
  | looking (id : String)
  | checking (id : String)
  | reading (id : String)
  | deleting (id : String)
  deriving DecidableEq

/-- The instance that held nothing when its removal asked. -/
def Removal.passed : Removal → Option String
  | .reading id | .deleting id => some id
  | _ => none

/-- The engine and the supervisor of one daemon over one store. -/
structure System where
  engine : Process interface
  removal : Removal

inductive Operation where
  | engine (e : Signal interface Request)
  | remove (id : String)
  | call (fault : Bool)
  | add (agent : Agent)

inductive Outcome where
  | engine (o : Trail interface)
  | going
  | refused
  | removed (id : String)
  | added

def isCrash : Signal interface Request → Bool
  | .crash => true
  | _ => false

namespace System

def world (s : System) : World := s.engine.world

def withWorld (s : System) (w : World) : System := { s with engine := { s.engine with world := w } }

def refuse (s : System) : System × Outcome := ({ s with removal := .idle }, .refused)

/-- `remove`, one store call at a time. A binding refers to its instance, an assignee does not. -/
def remove (s : System) (fault : Bool) : Option (System × Outcome) :=
  match s.removal with
  | .idle => none
  | .looking id =>
    if fault || (s.world.agents.get id).isNone then some s.refuse
    else some ({ s with removal := .checking id }, .going)
  | .checking id =>
    if fault || s.world.busy id then some s.refuse
    else some ({ s with removal := .reading id }, .going)
  | .reading id =>
    if fault then some s.refuse else some ({ s with removal := .deleting id }, .going)
  | .deleting id =>
    if fault || (s.world.bindings.get id).isSome then some s.refuse
    else
      let w := { s.world with agents := s.world.agents.erase id }
      some ({ s.withWorld w with removal := .idle }, .removed id)

def next (s : System) : Operation → Option (System × Outcome)
  | .engine e =>
    (server.advance s.engine e).map fun (p, o) =>
      (⟨p, if isCrash e then .idle else s.removal⟩, .engine o)
  | .remove id =>
    if s.removal = .idle then some ({ s with removal := .looking id }, .going) else none
  | .call fault => s.remove fault
  | .add agent =>
    match s.world.addInstance agent with
    | .ok w => some (s.withWorld w, .added)
    | .error _ => some (s, .refused)

/-- The call that the engine waits for. -/
def pending (s : System) : Option Call :=
  match s.engine.phase with
  | .busy _ (.call c _) => some c
  | _ => none

end System

def system : Machine System Operation Outcome where
  init s := Pristine s.world ∧ s.engine.phase = .down ∧ s.removal = .idle
  step s e s' o := s.next e = some (s', o)

/-- Nobody of an unfinished task, and no binding, without a row. -/
structure Kept (w : World) : Prop where
  task : ∀ r ∈ w.tasks.rows, r.isOpen = true → ∀ i, r.task.assignee = some i →
    (w.agents.get i).isSome = true
  binding : ∀ b ∈ w.bindings.rows, (w.agents.get b.instanceId).isSome = true

/-- The instance that the engine hands an unfinished task to by a step. -/
def handing (t : Transition System Operation Outcome) : Option String :=
  match t.event with
  | .engine (.answer a) =>
    if a.fault.isNone then t.before.pending.bind (Call.handsOver t.before.world.tasks) else none
  | _ => none

/-- The engine reads the list of instances. -/
def lists (t : Transition System Operation Outcome) : Bool :=
  match t.event with
  | .engine (.answer _) => t.before.pending = some .instances
  | _ => false

/-- The instances whose removal had asked what they hold, and was not over, at a time since the
engine last read the list; newest transition first. -/
def leaving : List (Transition System Operation Outcome) → List String
  | [] => []
  | t :: rest => t.before.removal.passed.toList ++ if lists t then [] else leaving rest

/-- The engine hands no unfinished task to an instance that leaves. -/
def Undisturbed : List (Transition System Operation Outcome) → Prop
  | [] => True
  | t :: rest => (∀ i ∈ handing t, i ∉ leaving (t :: rest)) ∧ Undisturbed rest

instance decidableUndisturbed :
    (h : List (Transition System Operation Outcome)) → Decidable (Undisturbed h)
  | [] => .isTrue trivial
  | t :: rest =>
    have := decidableUndisturbed rest
    inferInstanceAs (Decidable ((∀ i ∈ handing t, i ∉ leaving (t :: rest)) ∧ Undisturbed rest))

variable {w w' : World} {c : Call} {a : Answer} {given : Option String} {i : String}

/-- What a call leaves: a new holder is the one given, a new binding is of an instance, and no
instance goes. -/
structure Handles (w w' : World) (given : Option String) : Prop where
  task : ∀ r' ∈ w'.tasks.rows, r'.isOpen = true → ∀ i, r'.task.assignee = some i →
    (∃ r ∈ w.tasks.rows, r.isOpen = true ∧ r.task.assignee = some i) ∨ given = some i
  binding : ∀ b' ∈ w'.bindings.rows, (∃ b ∈ w.bindings.rows, b.instanceId = b'.instanceId) ∨
    (w.agents.get b'.instanceId).isSome = true
  agents : ∀ i, (w.agents.get i).isSome = true → (w'.agents.get i).isSome = true

theorem Handles.of_eq (ht : w'.tasks = w.tasks) (hb : w'.bindings = w.bindings)
    (ha : w'.agents = w.agents) : Handles w w' given := by
  refine ⟨fun r hr ho i hi => Or.inl ⟨r, ?_, ho, hi⟩, fun b hm => Or.inl ⟨b, ?_, rfl⟩,
    fun i hi => ?_⟩
  · rw [← ht]
    exact hr
  · rw [← hb]
    exact hm
  · rw [ha]
    exact hi

theorem Handles.same : Handles w w given :=
  .of_eq rfl rfl rfl

/-- One row of a task is written; who holds it unfinished is given, or held a task before. -/
theorem Handles.putRow {r' : TaskRow} (h : r'.isOpen = true → ∀ i, r'.task.assignee = some i →
    (∃ r ∈ w.tasks.rows, r.isOpen = true ∧ r.task.assignee = some i) ∨ given = some i) :
    Handles w (w.putRow r') given := by
  refine ⟨fun r hr ho i hi => ?_, fun b hb => Or.inl ⟨b, hb, rfl⟩, fun _ hi => hi⟩
  rcases Table.mem_put.mp hr with rfl | ⟨hmem, -⟩
  · exact h ho i hi
  · exact Or.inl ⟨r, hmem, ho, hi⟩

/-- A row written for `task` is held as before, or the write hands the task over. -/
theorem holder_of_written {task : Task} (ho : task.status.isClosed = false)
    (ha : task.assignee = some i) :
    (∃ r ∈ w.tasks.rows, r.isOpen = true ∧ r.task.assignee = some i) ∨
      handed w.tasks task = some i := by
  unfold handed
  rw [ho, Bool.false_or]
  cases hr : w.tasks.get task.id with
  | none => exact Or.inr ha
  | some r =>
    rw [Option.any_some]
    split_ifs with hsame
    · obtain ⟨hopen, hheld⟩ := Bool.and_eq_true_iff.mp hsame
      exact Or.inl ⟨r, (Table.get_eq_some.mp hr).1, hopen, (of_decide_eq_true hheld).trans ha⟩
    · exact Or.inr ha

theorem handles_advance {task : Task} {version : Nat} {data : TaskProgress} {clear : Bool} :
    Handles w (w.advance task version data clear).2 (handed w.tasks task) := by
  unfold World.advance
  split
  · rename_i row _
    by_cases hv : row.version = version
    · rw [if_pos hv]
      exact .putRow fun ho i ha => holder_of_written (Bool.not_eq_true' _ ▸ ho) ha
    · rw [if_neg hv]
      exact .same
  · exact .same

theorem handles_compareAndSwap {task : Task} {version : Nat} :
    Handles w (w.compareAndSwap task version).2 (handed w.tasks task) := by
  unfold World.compareAndSwap
  split
  · split_ifs
    · exact .putRow fun ho i ha => holder_of_written (Bool.not_eq_true' _ ▸ ho) ha
    · exact .same
  · exact .same

theorem handles_note {task : String} {block attention : Option String} {ack : Bool} :
    Handles w (w.note task block attention ack) given := by
  unfold World.note
  cases hr : w.row task with
  | none => exact .same
  | some r =>
    exact .putRow fun ho i ha => Or.inl ⟨r, (Table.get_eq_some.mp hr).1, ho, ha⟩

theorem handles_write {result : Except Refusal World}
    (h : ∀ w', result = .ok w' → Handles w w' given) : Handles w (w.write result).2 given := by
  unfold World.write
  cases result with
  | error e => exact .same
  | ok w' => exact h w' rfl

theorem handles_drop : Handles w (w.drop i) given :=
  ⟨fun r hr ho _ ha => Or.inl ⟨r, hr, ho, ha⟩,
    fun b hb => Or.inl ⟨b, (Table.mem_erase.mp hb).1, rfl⟩, fun _ hi => hi⟩

/-- A binding is of an instance that has one already, or has a row. -/
theorem handles_putBinding {b : BindingRow} (h : w.putBinding b = .ok w') :
    Handles w w' given := by
  have put : ∀ {b' : BindingRow}, ((∃ b ∈ w.bindings.rows, b.instanceId = b'.instanceId) ∨
      (w.agents.get b'.instanceId).isSome = true) →
      Handles w { w with bindings := w.bindings.put b' } given := by
    intro b' hb'
    refine ⟨fun r hr ho i ha => Or.inl ⟨r, hr, ho, ha⟩, fun c hc => ?_, fun _ hi => hi⟩
    rcases Table.mem_put.mp hc with rfl | ⟨hmem, -⟩
    · exact hb'
    · exact Or.inl ⟨c, hmem, rfl⟩
  unfold World.putBinding at h
  cases hget : w.bindings.get b.instanceId with
  | some old =>
    rw [hget] at h
    dsimp only at h
    split_ifs at h
    obtain rfl := Except.ok.inj h
    exact put (Or.inl ⟨old, (Table.get_eq_some.mp hget).1, rfl⟩)
  | none =>
    rw [hget] at h
    dsimp only at h
    split_ifs at h with hno hw
    obtain rfl := Except.ok.inj h
    refine put (Or.inr ?_)
    rw [Bool.or_eq_true, not_or] at hno
    simpa [Option.isNone_iff_eq_none, Option.isSome_iff_ne_none] using hno.1

/-- An instance is added or changed, none goes. -/
theorem handles_putAgent {agent : Agent} :
    Handles w { w with agents := w.agents.put agent } given := by
  refine ⟨fun r hr ho i ha => Or.inl ⟨r, hr, ho, ha⟩, fun b hb => Or.inl ⟨b, hb, rfl⟩,
    fun j hj => ?_⟩
  simp only [Table.get_put]
  split_ifs
  · rfl
  · exact hj

theorem handles_exec : Handles w (w.exec c a).2
    (if a.fault.isNone then Call.handsOver w.tasks c else none) := by
  rcases fault_or_perform w c a with ⟨reason, -, h⟩ | ⟨hfault, h⟩
  · rw [h]
    exact .same
  · rw [h, hfault, Option.isNone_none, if_pos rfl]
    cases c with
    | advancePipeline task version data confirmation => exact handles_advance
    | advanceTask task version data event => exact handles_advance
    | compareAndSwapTask task version => exact handles_compareAndSwap
    | createPipelineTask task pipeline =>
      refine handles_write fun w' h => ?_
      unfold World.createPipelineTask at h
      split_ifs at h
      obtain rfl := Except.ok.inj h
      exact .putRow fun ho i ha => holder_of_written (Bool.not_eq_true' _ ▸ ho) ha
    | taskNote task block attention ack => exact handles_note
    | putBinding b => exact handles_write fun _ h => handles_putBinding h
    | ensure repo b => exact handles_write fun _ h => handles_putBinding h
    | deleteBinding instanceId => exact handles_drop
    | release repo b mode => exact handles_drop
    | joinTeam team instanceId role =>
      refine handles_write fun w' h => ?_
      unfold World.joinTeam at h
      split_ifs at h
      split at h
      · obtain rfl := Except.ok.inj h
        exact handles_putAgent
      · cases h
    | addInstance agent =>
      refine handles_write fun w' h => ?_
      unfold World.addInstance at h
      split_ifs at h
      obtain rfl := Except.ok.inj h
      exact handles_putAgent
    | addTeam team =>
      refine handles_write fun w' h => ?_
      unfold World.addTeam at h
      split_ifs at h
      obtain rfl := Except.ok.inj h
      exact .of_eq rfl rfl rfl
    | setTeamWorkflow team workflow =>
      refine handles_write fun w' h => ?_
      unfold World.setTeamWorkflow at h
      split at h
      · obtain rfl := Except.ok.inj h
        exact .of_eq rfl rfl rfl
      · cases h
    | saveWorkflow workflow =>
      refine handles_write fun w' h => ?_
      unfold World.saveWorkflow at h
      split_ifs at h
      obtain rfl := Except.ok.inj h
      exact .of_eq rfl rfl rfl
    | claimMessage new =>
      simp only [World.perform, World.claim]
      split
      · exact .same
      · exact .of_eq rfl rfl rfl
    | _ => exact .of_eq rfl rfl rfl

/-- Everyone who holds something exists, and nobody holds a task whose removal has asked. -/
structure Minded (s : System) : Prop where
  kept : Kept s.world
  passed : ∀ i, s.removal.passed = some i → ∀ r ∈ s.world.tasks.rows, r.isOpen = true →
    r.task.assignee ≠ some i

theorem Kept.handles (hk : Kept w) (h : Handles w w' given)
    (hg : ∀ i, given = some i → (w.agents.get i).isSome = true) : Kept w' := by
  refine ⟨fun r hr ho i ha => h.agents i ?_, fun b hb => h.agents _ ?_⟩
  · rcases h.task r hr ho i ha with ⟨r0, hr0, ho0, ha0⟩ | hi
    · exact hk.task r0 hr0 ho0 i ha0
    · exact hg i hi
  · rcases h.binding b hb with ⟨b0, hb0, hid⟩ | hi
    · rw [← hid]
      exact hk.binding b0 hb0
    · exact hi

section Runs

variable {s s' : System} {e : Operation} {o : Outcome}
  {h : List (Transition System Operation Outcome)} {g : Seen}

theorem busy_eq_false {w : World} (h : w.busy i = false) : Idle w i := by
  unfold World.busy at h
  obtain ⟨htask, hbind⟩ := Bool.or_eq_false_iff.mp h
  refine ⟨fun r hr ho ha => ?_, fun b hb hi => ?_⟩
  · have hno := List.any_eq_false.mp htask r hr
    exact hno (by simp [ho, ha])
  · have hno := List.any_eq_false.mp hbind b hb
    exact hno (by simp [hi])

theorem minded_remove {fault : Bool} (hm : Minded s) (hs : s.remove fault = some (s', o)) :
    Minded s' ∧ ∀ i, o = .removed i → Idle s.world i := by
  have refused : ∀ {s1 o1}, some s.refuse = some (s1, o1) →
      Minded s1 ∧ ∀ i, o1 = .removed i → Idle s.world i := by
    intro s1 o1 h
    obtain ⟨rfl, rfl⟩ := Prod.mk.inj (Option.some.inj h)
    exact ⟨⟨hm.kept, fun _ hp => by cases hp⟩, fun _ hi => by cases hi⟩
  unfold System.remove at hs
  cases hr : s.removal with
  | idle =>
    rw [hr] at hs
    cases hs
  | looking id =>
    rw [hr] at hs
    dsimp only at hs
    split_ifs at hs
    · exact refused hs
    · obtain ⟨rfl, rfl⟩ := Prod.mk.inj (Option.some.inj hs)
      exact ⟨⟨hm.kept, fun _ hp => by cases hp⟩, fun _ hi => by cases hi⟩
  | checking id =>
    rw [hr] at hs
    dsimp only at hs
    split_ifs at hs with hno
    · exact refused hs
    · obtain ⟨rfl, rfl⟩ := Prod.mk.inj (Option.some.inj hs)
      rw [Bool.or_eq_true, not_or] at hno
      refine ⟨⟨hm.kept, fun i hp => ?_⟩, fun _ hi => by cases hi⟩
      obtain rfl := Option.some.inj hp
      exact (busy_eq_false (Bool.not_eq_true _ ▸ hno.2)).1
  | reading id =>
    rw [hr] at hs
    dsimp only at hs
    split_ifs at hs
    · exact refused hs
    · obtain ⟨rfl, rfl⟩ := Prod.mk.inj (Option.some.inj hs)
      refine ⟨⟨hm.kept, fun i hp => hm.passed i ?_⟩, fun _ hi => by cases hi⟩
      rw [hr]
      exact hp
  | deleting id =>
    rw [hr] at hs
    dsimp only at hs
    split_ifs at hs with hno
    · exact refused hs
    · obtain ⟨rfl, rfl⟩ := Prod.mk.inj (Option.some.inj hs)
      rw [Bool.or_eq_true, not_or] at hno
      have htask := hm.passed id (by rw [hr]; rfl)
      have hbind : ∀ b ∈ s.world.bindings.rows, b.instanceId ≠ id :=
        Table.get_eq_none.mp (Option.not_isSome_iff_eq_none.mp hno.2)
      refine ⟨⟨⟨fun r hmem ho i ha => ?_, fun b hb => ?_⟩, fun _ hp => by cases hp⟩, fun i hi => ?_⟩
      · change ((s.world.agents.erase id).get i).isSome = true
        rw [Table.get_erase, if_neg (by rintro rfl; exact htask r hmem ho ha)]
        exact hm.kept.task r hmem ho i ha
      · change ((s.world.agents.erase id).get b.instanceId).isSome = true
        rw [Table.get_erase, if_neg (hbind b hb)]
        exact hm.kept.binding b hb
      · obtain rfl := Outcome.removed.inj hi
        exact ⟨htask, hbind⟩

/-- The engine's call is answered. -/
theorem handing_answer {t : Transition System Operation Outcome} {starting : Bool}
    {next : Except Refusal c.Reply → Routine Unit} (he : t.event = .engine (.answer a))
    (h : t.before.engine.phase = .busy starting (.call c next)) :
    handing t = if a.fault.isNone then Call.handsOver t.before.world.tasks c else none := by
  simp only [handing, he, System.pending, h, Option.bind_some]

theorem lists_answer {t : Transition System Operation Outcome} {starting : Bool}
    {next : Except Refusal c.Reply → Routine Unit} (he : t.event = .engine (.answer a))
    (h : t.before.engine.phase = .busy starting (.call c next)) (hc : c ≠ .instances) :
    lists t = false := by
  simp only [lists, he, System.pending, h, decide_eq_false_iff_not]
  exact fun hp => hc (Option.some.inj hp)

/-- One step of the engine or of a removal, when no task goes to an instance that leaves. -/
theorem minded_step (hm : Minded s) (hs : s.next e = some (s', o))
    (hu : ∀ i ∈ handing ⟨s, e, s', o⟩, (s.world.agents.get i).isSome = true ∧
      s.removal.passed ≠ some i) : Minded s' ∧ ∀ i, o = .removed i → Idle s.world i := by
  cases e with
  | engine sig =>
    obtain ⟨⟨p, out⟩, hadv, h⟩ := Option.map_eq_some_iff.mp hs
    obtain ⟨rfl, rfl⟩ := Prod.mk.inj h
    refine ⟨?_, fun _ hi => by cases hi⟩
    have hpassed : ∀ i, (if isCrash sig then Removal.idle else s.removal).passed = some i →
        s.removal.passed = some i := by
      intro i hp
      split_ifs at hp
      · cases hp
      · exact hp
    rcases Server.world_advance hadv with hw | ⟨starting, c, next, a, rfl, hphase, hw⟩
    · have hw : p.world = s.world := hw
      refine ⟨?_, fun i hp r hr => hm.passed i (hpassed i hp) r ?_⟩
      · change Kept p.world
        rw [hw]
        exact hm.kept
      · rw [← hw]
        exact hr
    · have hw : p.world = (s.world.exec c a).2 := hw
      have hh : Handles s.world p.world
          (if a.fault.isNone then Call.handsOver s.world.tasks c else none) := by
        rw [hw]
        exact handles_exec
      have hgiven := fun i hi => hu i ((handing_answer (t := ⟨s, _, _, _⟩) rfl hphase).trans hi)
      refine ⟨hm.kept.handles hh fun i hi => (hgiven i hi).1, fun i hp r hr ho ha => ?_⟩
      rcases hh.task r hr ho i ha with ⟨r0, hr0, ho0, ha0⟩ | hi
      · exact hm.passed i (hpassed i hp) r0 hr0 ho0 ha0
      · exact (hgiven i hi).2 (hpassed i hp)
  | remove id =>
    simp only [System.next] at hs
    split_ifs at hs
    obtain ⟨rfl, rfl⟩ := Prod.mk.inj (Option.some.inj hs)
    exact ⟨⟨hm.kept, fun _ hp => by cases hp⟩, fun _ hi => by cases hi⟩
  | call fault => exact minded_remove hm hs
  | add agent =>
    simp only [System.next] at hs
    cases hadd : s.world.addInstance agent with
    | error e =>
      rw [hadd] at hs
      obtain ⟨rfl, rfl⟩ := Prod.mk.inj (Option.some.inj hs)
      exact ⟨hm, fun _ hi => by cases hi⟩
    | ok w =>
      rw [hadd] at hs
      obtain ⟨rfl, rfl⟩ := Prod.mk.inj (Option.some.inj hs)
      unfold World.addInstance at hadd
      split_ifs at hadd
      obtain rfl := Except.ok.inj hadd
      have hh : Handles s.world { s.world with agents := s.world.agents.put agent } none :=
        handles_putAgent
      exact ⟨⟨hm.kept.handles hh (fun _ hi => by cases hi), hm.passed⟩, fun _ hi => by cases hi⟩

theorem minded_init (hi : system.init s) : Minded s := by
  obtain ⟨hp, -, hr⟩ := hi
  refine ⟨⟨fun r hmem => ?_, fun b hb => ?_⟩, fun i hpass => ?_⟩
  · rw [hp.tasks] at hmem
    cases hmem
  · rw [hp.bindings] at hb
    cases hb
  · rw [hr] at hpass
    cases hpass

/-- The engine as it goes on, and the instances it found: they are there still, but for those that
leave. -/
structure Found (h : List (Transition System Operation Outcome)) (s : System) (g : Seen) : Prop where
  tasks : g.tasks = s.world.tasks
  minds : Server.Minds seen s.engine g
  listed : ∀ i ∈ g.listed, i ∉ leaving h → (s.world.agents.get i).isSome = true

theorem not_leaving (h1 : i ∉ leaving (⟨s, e, s', o⟩ :: h)) : s.removal.passed ≠ some i ∧
    (lists ⟨s, e, s', o⟩ = false → i ∉ leaving h) := by
  rw [leaving, List.mem_append, not_or] at h1
  refine ⟨fun hp => h1.1 (by rw [hp]; exact List.mem_singleton_self i), fun hl => ?_⟩
  have h2 := h1.2
  rw [hl] at h2
  exact h2

theorem unanswered {t : Transition System Operation Outcome}
    (h : ∀ a, t.event ≠ .engine (.answer a)) : lists t = false ∧ handing t = none := by
  unfold lists handing
  split
  · exact absurd ‹_› (h _)
  · exact ⟨rfl, rfl⟩

/-- A step that hands a task over reads no list. -/
theorem lists_of_handing {t : Transition System Operation Outcome} (hi : i ∈ handing t) :
    lists t = false := by
  unfold handing at hi
  split at hi
  · rename_i heq
    split_ifs at hi
    · obtain ⟨c, hc, hgiven⟩ := Option.bind_eq_some_iff.mp hi
      rw [lists, heq]
      by_contra hl
      have hp : t.before.pending = some .instances := by simpa using hl
      rw [hc] at hp
      cases hp
      cases hgiven
    · cases hi
  · cases hi

/-- Nobody goes in a step of the engine; the list is read anew, or stays as it was. -/
theorem Found.engine {sig : Signal interface Request} (hf : Found h s g)
    (hs : s.next (.engine sig) = some (s', o)) :
    (∃ g', Found (⟨s, .engine sig, s', o⟩ :: h) s' g') ∧
      ∀ i ∈ handing ⟨s, .engine sig, s', o⟩, i ∈ g.listed := by
  obtain ⟨⟨p, out⟩, hadv, h1⟩ := Option.map_eq_some_iff.mp hs
  obtain ⟨rfl, rfl⟩ := Prod.mk.inj h1
  rcases Server.minds_advance (fun g => (heeds_boot g).unbounded)
    (fun request g => (heeds_serve request g).unbounded) hf.minds hadv with
    ⟨hno, hw, hminds⟩ | ⟨starting, c, next, a, rfl, hphase, hw, hduty, hnext⟩
  · have hno : ∀ a, Operation.engine sig ≠ .engine (.answer a) :=
      fun a he => hno a (Operation.engine.inj he)
    obtain ⟨hlists, hgiven⟩ := unanswered (t := ⟨s, .engine sig, ⟨p, if isCrash sig then .idle else
      s.removal⟩, .engine out⟩) hno
    refine ⟨⟨g, ?_, hminds, fun i hi hl => ?_⟩, fun i hi => ?_⟩
    · rw [hf.tasks]
      exact congrArg World.tasks hw.symm
    · change (p.world.agents.get i).isSome = true
      rw [hw]
      exact hf.listed i hi ((not_leaving hl).2 hlists)
    · rw [hgiven] at hi
      cases hi
  · have hw : p.world = (s.world.exec c a).2 := hw
    refine ⟨⟨⟨(s.world.exec c a).2.tasks, listedAfter c (s.world.exec c a).1 g.listed⟩, ?_,
      hnext _ ⟨s.world, a, hf.tasks.symm, rfl, rfl⟩, fun i hi hl => ?_⟩, fun i hi => ?_⟩
    · exact congrArg World.tasks hw.symm
    · change (p.world.agents.get i).isSome = true
      rw [hw]
      refine handles_exec.agents i ?_
      by_cases hc : c = .instances
      · subst hc
        rcases fault_or_perform s.world .instances a with ⟨reason, -, he⟩ | ⟨-, he⟩
        · rw [he] at hi
          cases hi
        · rw [he] at hi
          obtain ⟨row, hrow, rfl⟩ := List.mem_map.mp hi
          obtain ⟨agent, hagent, rfl⟩ := List.mem_map.mp hrow
          rw [Table.get_of_mem (Table.mem_values.mp hagent)]
          rfl
      · rw [listedAfter_eq hc] at hi
        exact hf.listed i hi ((not_leaving hl).2 (lists_answer rfl hphase hc))
    · have hgiven := (handing_answer (t := ⟨s, _, _, _⟩) rfl hphase).symm.trans hi
      obtain ⟨-, hgiven⟩ := Option.ite_none_right_eq_some.mp hgiven
      exact hduty i (hf.tasks ▸ hgiven)

/-- Only an instance that leaves goes. -/
theorem Found.step (hf : Found h s g) (hs : s.next e = some (s', o)) :
    (∃ g', Found (⟨s, e, s', o⟩ :: h) s' g') ∧ ∀ i ∈ handing ⟨s, e, s', o⟩, i ∈ g.listed := by
  -- Whoever is not the engine leaves the tasks, and the engine where it is.
  have others : ∀ w removal, w.tasks = s.world.tasks → (∀ i, s.removal.passed ≠ some i →
      (s.world.agents.get i).isSome = true → (w.agents.get i).isSome = true) →
      lists ⟨s, e, { s.withWorld w with removal := removal }, o⟩ = false →
      Found (⟨s, e, { s.withWorld w with removal := removal }, o⟩ :: h)
        { s.withWorld w with removal := removal } g := by
    intro w removal ht ha hlists
    refine ⟨hf.tasks.trans ht.symm, hf.minds, fun i hi hl => ?_⟩
    obtain ⟨hpassed, hrest⟩ := not_leaving hl
    exact ha i hpassed (hf.listed i hi (hrest hlists))
  cases e with
  | engine sig => exact hf.engine hs
  | remove id =>
    refine ⟨⟨g, ?_⟩, fun i hi => absurd hi (Option.not_mem_none i)⟩
    simp only [System.next] at hs
    split_ifs at hs
    obtain ⟨rfl, rfl⟩ := Prod.mk.inj (Option.some.inj hs)
    exact others s.world _ rfl (fun _ _ hi => hi) rfl
  | call fault =>
    refine ⟨⟨g, ?_⟩, fun i hi => absurd hi (Option.not_mem_none i)⟩
    simp only [System.next] at hs
    unfold System.remove at hs
    cases hr : s.removal with
    | idle =>
      rw [hr] at hs
      cases hs
    | looking id | checking id | reading id =>
      rw [hr] at hs
      dsimp only at hs
      split_ifs at hs <;> obtain ⟨rfl, rfl⟩ := Prod.mk.inj (Option.some.inj hs) <;>
        exact others s.world _ rfl (fun _ _ hi => hi) rfl
    | deleting id =>
      rw [hr] at hs
      dsimp only at hs
      split_ifs at hs <;> obtain ⟨rfl, rfl⟩ := Prod.mk.inj (Option.some.inj hs)
      · exact others s.world _ rfl (fun _ _ hi => hi) rfl
      · refine others { s.world with agents := s.world.agents.erase id } _ rfl (fun i hp hi => ?_) rfl
        have hne : i ≠ id := by
          rintro rfl
          exact hp (by rw [hr]; rfl)
        change ((s.world.agents.erase id).get i).isSome = true
        rw [Table.get_erase, if_neg hne]
        exact hi
  | add agent =>
    refine ⟨⟨g, ?_⟩, fun i hi => absurd hi (Option.not_mem_none i)⟩
    simp only [System.next] at hs
    cases hadd : s.world.addInstance agent with
    | error e =>
      rw [hadd] at hs
      obtain ⟨rfl, rfl⟩ := Prod.mk.inj (Option.some.inj hs)
      exact others s.world s.removal rfl (fun _ _ hi => hi) rfl
    | ok w =>
      rw [hadd] at hs
      obtain ⟨rfl, rfl⟩ := Prod.mk.inj (Option.some.inj hs)
      unfold World.addInstance at hadd
      split_ifs at hadd
      obtain rfl := Except.ok.inj hadd
      exact others { s.world with agents := s.world.agents.put agent } s.removal rfl
        (fun _ _ hi => (handles_putAgent : Handles _ _ none).agents _ hi) rfl

theorem found_init (hi : system.init s) : Found [] s ⟨s.world.tasks, []⟩ := by
  obtain ⟨-, hdown, -⟩ := hi
  refine ⟨rfl, fun starting rest hb => ?_, fun _ hi => nomatch hi⟩
  rw [hdown] at hb
  cases hb

/-- As long as no unfinished task is handed to an instance that leaves, every holder exists, and
what is removed holds nothing. -/
theorem removal_orphans_nobody (hr : system.Run h s) (hu : Undisturbed h) :
    Kept s.world ∧ ∀ t ∈ h, ∀ i, t.output = .removed i → Idle t.before.world i := by
  have hall : Minded s ∧ (∃ g, Found h s g) ∧
      ∀ t ∈ h, ∀ i, t.output = .removed i → Idle t.before.world i := by
    induction hr with
    | start hi => exact ⟨minded_init hi, ⟨_, found_init hi⟩, fun _ ht => nomatch ht⟩
    | snoc hr hs ih =>
      obtain ⟨hnow, hbefore⟩ := hu
      obtain ⟨hm, ⟨g, hf⟩, hidle⟩ := ih hbefore
      obtain ⟨hfound, hlisted⟩ := hf.step hs
      obtain ⟨hm', hout⟩ := minded_step hm hs fun i hi => by
        obtain ⟨hpassed, hrest⟩ := not_leaving (hnow i hi)
        exact ⟨hf.listed i (hlisted i hi) (hrest (lists_of_handing hi)), hpassed⟩
      refine ⟨hm', hfound, fun t ht => ?_⟩
      rcases List.mem_cons.mp ht with rfl | ht
      · exact hout
      · exact hidle t ht
  exact ⟨hall.1.kept, hall.2.2⟩

end Runs

/-- The first task of the workshop, up to the write that assigns it. -/
def beforeAssignment : List (Signal interface Request) :=
  started 18 ++ .serve (.createTask "x" "dev" "core" none) ::
    List.replicate 18 (.answer { text := "head" })

/-- A removal that has asked what the instance holds. -/
def removalAsked (id : String) : List Operation := [.remove id, .call false, .call false]

/-- The task is assigned between the check of a removal and its deletion. -/
theorem removal_orphans_the_assigned :
    ∃ h s, system.Run h s ∧ ¬ Kept s.world := by
  let played := Machine.play System.next [] ⟨⟨workshop, .down⟩, .idle⟩
    (beforeAssignment.map .engine ++ removalAsked "dev" ++
      [.engine (Signal.answer {}), .call false, .call false])
  have hr : system.Run played.1 played.2 :=
    .play (fun _ _ _ _ => id) (.start ⟨pristine_workshop, rfl, rfl⟩)
  refine ⟨played.1, played.2, hr, fun hk => ?_⟩
  have horphan : (played.2.world.tasks.rows.any fun r =>
      r.isOpen && r.task.assignee = some "dev") = true := by decide +kernel
  have hgone : (played.2.world.agents.get "dev").isSome = false := by decide +kernel
  obtain ⟨r, hr, hheld⟩ := List.any_eq_true.mp horphan
  obtain ⟨ho, ha⟩ := Bool.and_eq_true_iff.mp hheld
  have hrow := hk.task r hr ho "dev" (of_decide_eq_true ha)
  rw [hgone] at hrow
  cases hrow

/-- While the developer has a task its removal is refused; once the task is cancelled and cleaned up
the developer goes. -/
def removals : List Operation :=
  firstDispatch.map .engine ++ removalAsked "dev" ++
    (served (.cancel "t-1" none) 18 { text := "head" }).map .engine ++ removalAsked "dev" ++
    [.call false, .call false]

theorem removal_orphans_nobody_workshop :
    let played := Machine.play System.next [] ⟨⟨workshop, .down⟩, .idle⟩ removals
    (Kept played.2.world ∧ ∀ t ∈ played.1, ∀ i, t.output = .removed i → Idle t.before.world i) ∧
      (played.2.world.agents.get "dev").isNone = true := by
  intro played
  have hr : system.Run played.1 played.2 :=
    .play (fun _ _ _ _ => id) (.start ⟨pristine_workshop, rfl, rfl⟩)
  exact ⟨removal_orphans_nobody hr (by decide +kernel), by decide +kernel⟩

end Agend.Engine
