import Agend.Engine.Stepping
import Agend.Tasks.Atomic

/-! Transitions of tasks among all the other writes to their rows: several may be started from
what was read earlier, in any order, and each one goes through on the version it read or not at
all. -/
namespace Agend.Tasks

open Library Pipeline Engine Tx
open Agend.Runtime (DeliveryState Message)

structure VersionedTask where
  version : Nat
  task : Task
  deriving DecidableEq

/-- A row of `tasks` and the pipeline columns, read one after the other. -/
structure Draft where
  row : VersionedTask
  progress : Option TaskProgress
  deriving DecidableEq

structure Loaded where
  version : Nat
  task : Task
  state : PipelineState
  progress : TaskProgress

def PipelineText.parse : PipelineText → Option PipelineSnapshot
  | .snapshot p => some p
  | .unreadable => none

/-- `load` on what was read, with the workflow that the task pins. -/
def load (saved : String → Nat → Option Workflow) (d : Draft) : Except Refusal Loaded := do
  let progress := d.progress.map fun p => ⟨⟨p.pipeline.parse, p.blockReason⟩, none, false⟩
  let loaded ← restored d.row.task.id ⟨d.row.task, d.row.version, progress⟩
    (saved d.row.task.workflowId d.row.task.workflowVersion)
  let progress ← okOr d.progress (invalid "pipeline snapshot missing")
  .ok ⟨loaded.version, loaded.task, loaded.state, progress⟩

structure Advanced where
  task : Task
  next : PipelineState
  entered : Nat
  actions : List PipelineAction

def position (s : PipelineState) : Nat × Nat := (s.stageIndex, s.attempt)

/-- When the stage that the task is in now was entered. -/
def entered (loaded : Loaded) (next : PipelineState) (now : Nat) : Nat :=
  if position next ≠ position loaded.state then now else loaded.progress.stageEnteredAtUnixMs

def rejected (s : PipelineState) (e : TransitionError) : Refusal :=
  let message := e.message ++ "; now " ++ ticket s
  if e = .mergeInFlight then ⟨"merge_in_flight", message⟩ else stale message

def advancedTask (task : Task) (next : PipelineState) : Task :=
  { task with status := statusOf next.status, mergeCommit := next.mergeCommit }

def advancedProgress (loaded : Loaded) (next : PipelineState) (now : Nat) : TaskProgress :=
  ⟨.snapshot next.snapshot, entered loaded next now, loaded.progress.mergeIntent, none⟩

/-- The record of an event; `debug` prints it. -/
def record (debug : PipelineEvent → String) (event : PipelineEvent) (detail : Option String)
    (eventId : String) (now : Nat) : StoredEvent :=
  ⟨eventId, now, "pipeline", debug event ++ detail.elim "" ("\n" ++ ·)⟩

/-- Actions are returned only after the commit has succeeded. -/
def advance (debug : PipelineEvent → String) (loaded : Loaded) (event : PipelineEvent)
    (detail : Option String) (eventId : String) (now : Nat) (fault : Option Nat) (db : Db) :
    Except Refusal Advanced × Db :=
  match step loaded.state event with
  | .error e => (.error (rejected loaded.state e), db)
  | .ok (next, actions) =>
    match transact (advancePipeline (advancedTask loaded.task next) loaded.version
      (advancedProgress loaded next now) (record debug event detail eventId now)
      (confirmationOf loaded.state event)) fault db with
    | (.ok (.written _), db') =>
      (.ok ⟨advancedTask loaded.task next, next, entered loaded next now, actions⟩, db')
    | (.ok (.conflict _), db') => (.error (invalid "pipeline CAS conflict; event discarded"), db')
    | (.error e, db') => (.error (invalid e), db')

/-- The store and what callers have read of it, however long ago. -/
structure World where
  db : Db
  rows : List VersionedTask
  drafts : List Draft

def World.empty : World := ⟨⟨.empty, [], .empty⟩, [], []⟩

inductive Signal where
  | createTask (task : Task) (fault : Option Nat)
  /-- A new task starts with the pipeline of its workflow. -/
  | createPipelineTask (task : Task) (now : Nat) (fault : Option Nat)
  | readTask (id : String)
  | readProgress (row : VersionedTask)
  | advance (d : Draft) (event : PipelineEvent) (detail : Option String) (eventId : String)
      (now : Nat) (fault : Option Nat)
  /-- The other callers of `advance_task`: they assign, hand off, block, unblock, give a task up
  or keep a merge intent. Without a pipeline the text becomes `{}`. -/
  | amend (d : Draft) (assignee : Option String) (status : TaskStatus)
      (mergeIntent blockReason : Option String) (event : StoredEvent) (now : Nat)
      (fault : Option Nat)
  | compareAndSwap (row : VersionedTask) (assignee : Option String) (status : TaskStatus)
      (fault : Option Nat)
  | note (id : String) (block attention : Option String) (ack : Bool) (fault : Option Nat)
  /-- Any other call changes the messages. -/
  | mail (mail : Agend.Runtime.Store)

inductive Outcome where
  | advanced (r : Except Refusal Advanced)
  | other

def versioned (r : Row) : VersionedTask := ⟨r.version, r.task⟩

def amended (p : Option TaskProgress) (mergeIntent blockReason : Option String) (now : Nat) :
    TaskProgress :=
  match p with
  | some p => { p with mergeIntent := mergeIntent, blockReason := blockReason }
  | none => ⟨.unreadable, now, mergeIntent, blockReason⟩

/-- The pipeline of a new task. -/
def newPipeline (saved : String → Nat → Option Workflow) (task : Task) :
    Except Refusal (PipelineState × ValidatedWorkflow) := do
  let workflow ← okOr (saved task.workflowId task.workflowVersion) (invalid "unknown workflow")
  let v ← validate workflow
  .ok (.new task.id v, v)

section System

variable (debug : PipelineEvent → String)

-- The saved workflows: a saved version never changes.
variable (saved : String → Nat → Option Workflow)

def World.next (s : World) : Signal → Option (World × Outcome)
  | .createTask task fault =>
    some ({ s with db := (transact (createTask task) fault s.db).2 }, .other)
  | .createPipelineTask task now fault =>
    match newPipeline saved task with
    | .ok (state, _) => some ({ s with
        db := (transact (createPipelineTask task (.snapshot state.snapshot) now) fault s.db).2 },
        .other)
    | .error _ => none
  | .readTask id =>
    (s.db.tasks.get id).map fun r => ({ s with rows := versioned r :: s.rows }, .other)
  | .readProgress row =>
    if row ∈ s.rows then
      some ({ s with
        drafts := ⟨row, (s.db.tasks.get row.task.id).bind Row.progress⟩ :: s.drafts }, .other)
    else none
  | .advance d event detail eventId now fault =>
    if d ∈ s.drafts then
      match load saved d with
      | .ok loaded =>
        let (r, db) := Tasks.advance debug loaded event detail eventId now fault s.db
        some ({ s with db := db }, .advanced r)
      | .error e => some (s, .advanced (.error e))
    else none
  | .amend d assignee status mergeIntent blockReason event now fault =>
    if d ∈ s.drafts then
      some ({ s with db := (transact (advanceTask
        { d.row.task with assignee := assignee, status := status } d.row.version
        (amended d.progress mergeIntent blockReason now) event) fault s.db).2 }, .other)
    else none
  | .compareAndSwap row assignee status fault =>
    if row ∈ s.rows then
      some ({ s with db := (transact (compareAndSwapTask
        { row.task with assignee := assignee, status := status } row.version) fault s.db).2 },
        .other)
    else none
  | .note id block attention ack fault =>
    some ({ s with db := (transact (taskNote id block attention ack) fault s.db).2 }, .other)
  | .mail mail => some ({ s with db := { s.db with mail := mail } }, .other)

def tasks : Machine World Signal Outcome where
  init s := s = .empty
  step s e s' o := s.next debug saved e = some (s', o)

end System

/-- What only a write that moves the version changes. -/
def TaskProgress.kept (p : TaskProgress) : PipelineText × Nat × Option String :=
  (p.pipeline, p.stageEnteredAtUnixMs, p.mergeIntent)

def Row.kept (r : Row) : Option (PipelineText × Nat × Option String) :=
  r.progress.map TaskProgress.kept

section Steps

variable {debug : PipelineEvent → String} {saved : String → Nat → Option Workflow} {s s' : World}
  {e : Signal} {o : Outcome} {db db' : Db} {d : Draft} {v : VersionedTask} {loaded : Loaded}
  {event : PipelineEvent} {detail : Option String} {eventId : String} {now : Nat}
  {fault : Option Nat}

theorem load_eq_ok (h : load saved d = .ok loaded) :
    loaded.version = d.row.version ∧ loaded.task = d.row.task ∧
      d.progress = some loaded.progress ∧ ∃ workflow snapshot,
        saved d.row.task.workflowId d.row.task.workflowVersion = some workflow ∧
        loaded.progress.pipeline = .snapshot snapshot ∧
        loaded.state = .ofSnapshot snapshot workflow := by
  unfold load at h
  obtain ⟨l, hl, h⟩ := bind_eq_ok.mp h
  obtain ⟨p, hp, h⟩ := bind_eq_ok.mp h
  obtain rfl := Except.ok.inj h
  have hp := okOr_eq_ok.mp hp
  obtain ⟨ht, hv, -, -, workflow, snapshot, hwf, hsnap, hst⟩ := restored_eq_ok hl
  refine ⟨hv, ht, hp, workflow, snapshot, hwf, ?_, hst⟩
  rw [hp] at hsnap
  change p.pipeline.parse = some snapshot at hsnap
  cases hpipe : p.pipeline with
  | snapshot q =>
    rw [hpipe] at hsnap
    rw [Option.some.inj hsnap]
  | unreadable =>
    rw [hpipe] at hsnap
    cases hsnap

/-- A call that returns an error changed nothing, and one that returns actions committed. -/
theorem advance_cases :
    (∃ e, advance debug loaded event detail eventId now fault db = (.error e, db)) ∨
    ∃ out db', advance debug loaded event detail eventId now fault db = (.ok out, db') ∧
      step loaded.state event = .ok (out.next, out.actions) ∧
      out.task = advancedTask loaded.task out.next ∧ out.entered = entered loaded out.next now ∧
      Advances db db' out.task loaded.version (advancedProgress loaded out.next now)
        (record debug event detail eventId now) (confirmationOf loaded.state event) true := by
  unfold advance
  cases hstep : step loaded.state event with
  | error e => exact Or.inl ⟨_, rfl⟩
  | ok r =>
    obtain ⟨next, actions⟩ := r
    dsimp only
    rcases transact_advance (advancedTask loaded.task next) loaded.version
      (advancedProgress loaded next now) (record debug event detail eventId now)
      (confirmationOf loaded.state event) true fault db with ⟨db', h, hadv⟩ | ⟨result, h, hno⟩
    · rw [advancePipeline, h]
      exact Or.inr ⟨_, db', rfl, rfl, rfl, rfl, hadv⟩
    · rw [advancePipeline, h]
      cases result with
      | error e => exact Or.inl ⟨_, rfl⟩
      | ok result =>
        cases result with
        | written version => exact absurd rfl (hno version)
        | conflict version => exact Or.inl ⟨_, rfl⟩

/-- The row of a task whose version was read earlier: as long as the version stays, so does
everything that was read with it. -/
def ReadSince (db : Db) (v : VersionedTask) (P : Row → Prop) : Prop :=
  ∃ r, db.tasks.get v.task.id = some r ∧ v.version ≤ r.version ∧ pinned v.task = pinned r.task ∧
    (v.version = r.version → v.task = r.task ∧ P r)

/-- The version of the row was read, and nothing has moved it since. -/
theorem ReadSince.current {P : Row → Prop} {r : Row} (h : ReadSince db v P)
    (hr : db.tasks.get v.task.id = some r) (hv : r.version = v.version) : v.task = r.task ∧ P r := by
  obtain ⟨r', hr', -, -, hsame⟩ := h
  obtain rfl := Option.some.inj (hr.symm.trans hr')
  exact hsame hv.symm

structure Reads (s : World) : Prop where
  rows : ∀ v ∈ s.rows, ReadSince s.db v fun _ => True
  drafts : ∀ d ∈ s.drafts, ReadSince s.db d.row fun r => d.progress.map TaskProgress.kept = r.kept

/-- Everything a step can do to the rows of tasks. -/
inductive Turn (debug : PipelineEvent → String) (saved : String → Nat → Option Workflow)
    (db db' : Db) : Signal → Outcome → Prop
  | kept {e : Signal} {o : Outcome} (h : db'.tasks = db.tasks)
      (hno : ∀ out, o ≠ .advanced (.ok out)) : Turn debug saved db db' e o
  | bare {task : Task} {fault : Option Nat} (hnone : db.tasks.get task.id = none)
      (hs : Sets db db' (newRow task)) : Turn debug saved db db' (.createTask task fault) .other
  | started {task : Task} {now : Nat} {fault : Option Nat} {st : PipelineState}
      {w : ValidatedWorkflow} (hn : newPipeline saved task = .ok (st, w))
      (hnone : db.tasks.get task.id = none)
      (hs : Sets db db' { newRow task with
        pipeline := some (.snapshot st.snapshot), stageEnteredAtUnixMs := now }) :
      Turn debug saved db db' (.createPipelineTask task now fault) .other
  | noted {e : Signal} {r r' : Row} (hr : db.tasks.get r'.id = some r) (hs : Sets db db' r')
      (ht : r'.task = r.task) (hv : r'.version = r.version) (hk : r'.kept = r.kept) :
      Turn debug saved db db' e .other
  | amended {e : Signal} {r r' : Row} (hr : db.tasks.get r'.id = some r) (hs : Sets db db' r')
      (hw : pinned r'.task = pinned r.task) (hv : r'.version = r.version + 1)
      (hk : ∀ p, r'.pipeline = some (.snapshot p) →
        r.pipeline = some (.snapshot p) ∧ r'.stageEnteredAtUnixMs = r.stageEnteredAtUnixMs) :
      Turn debug saved db db' e .other
  | advanced {d : Draft} {event : PipelineEvent} {detail : Option String} {eventId : String}
      {now : Nat} {fault : Option Nat} {loaded : Loaded} {out : Advanced} {r : Row}
      (hl : load saved d = .ok loaded) (hr : db.tasks.get loaded.task.id = some r)
      (hv : r.version = loaded.version) (ht : r.task = loaded.task)
      (hk : r.kept = some loaded.progress.kept)
      (hstep : step loaded.state event = .ok (out.next, out.actions))
      (hout : out.task = advancedTask loaded.task out.next)
      (hent : out.entered = entered loaded out.next now)
      (hc : Completes db db' (moved r out.task (loaded.version + 1)
        (advancedProgress loaded out.next now) true) (record debug event detail eventId now)
        (confirmationOf loaded.state event)) :
      Turn debug saved db db' (.advance d event detail eventId now fault) (.advanced (.ok out))

theorem of_kept {r : Row} {p : TaskProgress} (h : r.kept = some p.kept) :
    r.pipeline = some p.pipeline ∧ r.stageEnteredAtUnixMs = p.stageEnteredAtUnixMs ∧
      r.mergeIntent = p.mergeIntent := by
  obtain ⟨q, hq, hkept⟩ := Option.map_eq_some_iff.mp h
  obtain ⟨text, htext, rfl⟩ := Option.map_eq_some_iff.mp hq
  obtain ⟨hpipe, hrest⟩ := Prod.mk.inj hkept
  obtain ⟨hstage, hintent⟩ := Prod.mk.inj hrest
  exact ⟨htext.trans (congrArg some hpipe), hstage, hintent⟩

theorem turn_of_step (hi : Reads s) (hs : s.next debug saved e = some (s', o)) :
    Turn debug saved s.db s'.db e o := by
  cases e with
  | createTask task fault =>
    obtain ⟨rfl, rfl⟩ := Prod.mk.inj (Option.some.inj hs)
    rcases transact_createTask task fault s.db with ⟨hnone, hset⟩ | h
    · exact .bare hnone hset
    · exact .kept (congrArg Db.tasks h) fun _ ho => by cases ho
  | createPipelineTask task now fault =>
    simp only [World.next] at hs
    cases hn : newPipeline saved task with
    | error e =>
      rw [hn] at hs
      cases hs
    | ok r =>
      rw [hn] at hs
      obtain ⟨rfl, rfl⟩ := Prod.mk.inj (Option.some.inj hs)
      rcases transact_createPipelineTask task (.snapshot r.1.snapshot) now fault s.db with
        ⟨hnone, hset⟩ | h
      · exact .started hn hnone hset
      · exact .kept (congrArg Db.tasks h) fun _ ho => by cases ho
  | readTask id =>
    obtain ⟨r, -, h⟩ := Option.map_eq_some_iff.mp hs
    obtain ⟨rfl, rfl⟩ := Prod.mk.inj h
    exact .kept rfl fun _ ho => by cases ho
  | readProgress row =>
    simp only [World.next] at hs
    split_ifs at hs
    obtain ⟨rfl, rfl⟩ := Prod.mk.inj (Option.some.inj hs)
    exact .kept rfl fun _ ho => by cases ho
  | advance d event detail eventId now fault =>
    simp only [World.next] at hs
    split_ifs at hs with hd
    cases hl : load saved d with
    | error e =>
      rw [hl] at hs
      obtain ⟨rfl, rfl⟩ := Prod.mk.inj (Option.some.inj hs)
      exact .kept rfl fun _ ho => by cases ho
    | ok loaded =>
      rw [hl] at hs
      obtain ⟨rfl, rfl⟩ := Prod.mk.inj (Option.some.inj hs)
      rcases advance_cases with ⟨e, h⟩ | ⟨out, db', h, hstep, hout, hent, r, hr, hv, hc⟩
      · exact .kept (by rw [h]) fun _ => by rw [h]; intro ho; cases ho
      · obtain ⟨hver, htask, hprog, -⟩ := load_eq_ok hl
        have hid : loaded.task.id = d.row.task.id := congrArg Task.id htask
        have hr : s.db.tasks.get loaded.task.id = some r := by
          rw [hout] at hr
          exact hr
        obtain ⟨ht, hk⟩ := (hi.drafts d hd).current (hid ▸ hr) (hv.trans hver)
        rw [hprog] at hk
        rw [h]
        exact .advanced hl hr hv (ht.symm.trans htask.symm) hk.symm hstep hout hent hc
  | amend d assignee status mergeIntent blockReason event now fault =>
    simp only [World.next] at hs
    split_ifs at hs with hd
    obtain ⟨rfl, rfl⟩ := Prod.mk.inj (Option.some.inj hs)
    rcases transact_advance { d.row.task with assignee := assignee, status := status } d.row.version
      (amended d.progress mergeIntent blockReason now) event none false fault s.db with
      ⟨db', h, r, hr, hv, hc⟩ | ⟨result, h, -⟩
    · obtain ⟨ht, hk⟩ := (hi.drafts d hd).current hr hv
      rw [advanceTask, h]
      have hr' : s.db.tasks.get (moved r { d.row.task with assignee := assignee, status := status }
          (d.row.version + 1) (amended d.progress mergeIntent blockReason now) false).id =
          some r := hr
      refine .amended hr' hc.tasks (by rw [← ht]; rfl) (by rw [hv]; rfl) fun p hp => ?_
      have hp : (amended d.progress mergeIntent blockReason now).pipeline = .snapshot p :=
        Option.some.inj hp
      cases hprog : d.progress with
      | none =>
        rw [hprog] at hp
        cases hp
      | some q =>
        rw [hprog] at hp hk
        obtain ⟨hpipe, hstage, -⟩ := of_kept hk.symm
        refine ⟨?_, ?_⟩
        · rw [hpipe]
          exact congrArg some hp
        · exact hstage.symm
    · rw [advanceTask, h]
      exact .kept rfl fun _ ho => by cases ho
  | compareAndSwap row assignee status fault =>
    simp only [World.next] at hs
    split_ifs at hs with hd
    obtain ⟨rfl, rfl⟩ := Prod.mk.inj (Option.some.inj hs)
    rcases transact_compareAndSwap { row.task with assignee := assignee, status := status }
      row.version fault s.db with ⟨r, hr, hv, hset⟩ | h
    · obtain ⟨ht, -⟩ := (hi.rows row hd).current hr hv
      have hr' : s.db.tasks.get (r.write { row.task with assignee := assignee, status := status }
          (row.version + 1)).id = some r := hr
      exact .amended hr' hset (by rw [← ht]; rfl) (by rw [hv]; rfl) fun p hp => ⟨hp, rfl⟩
    · exact .kept (congrArg Db.tasks h) fun _ ho => by cases ho
  | note id block attention ack fault =>
    obtain ⟨rfl, rfl⟩ := Prod.mk.inj (Option.some.inj hs)
    rcases transact_taskNote id block attention ack fault s.db with ⟨r, hr, hset⟩ | h
    · have hid := (Table.get_eq_some.mp hr).2
      refine .noted (r := r) (by rw [← hr, ← hid]; rfl) hset rfl rfl ?_
      cases hp : r.pipeline <;> simp [Row.kept, Row.progress, Row.note, hp, TaskProgress.kept]
    · exact .kept (congrArg Db.tasks h) fun _ ho => by cases ho
  | mail mail =>
    obtain ⟨rfl, rfl⟩ := Prod.mk.inj (Option.some.inj hs)
    exact .kept rfl fun _ ho => by cases ho

/-- Where a row went: its version moved, or all that was read with it stayed. -/
structure Row.Leads (r r' : Row) : Prop where
  pinned : pinned r'.task = pinned r.task
  moves : r.version < r'.version ∨ r'.version = r.version ∧ r'.task = r.task ∧ r'.kept = r.kept

theorem Row.Leads.refl (r : Row) : r.Leads r := ⟨rfl, Or.inr ⟨rfl, rfl, rfl⟩⟩

/-- Rows are never deleted, and none changes without its version. -/
theorem Turn.leads (ht : Turn debug saved db db' e o) {id : String} {r : Row}
    (hr : db.tasks.get id = some r) : ∃ r', db'.tasks.get id = some r' ∧ r.Leads r' := by
  have hset : ∀ {r0 r' : Row}, db.tasks.get r'.id = some r0 → Sets db db' r' → r0.Leads r' →
      ∃ r', db'.tasks.get id = some r' ∧ r.Leads r' := by
    intro r0 r' hr0 hs hl
    by_cases hid : id = r'.id
    · rw [hid] at hr
      obtain rfl := Option.some.inj (hr0.symm.trans hr)
      exact ⟨r', by rw [hs, if_pos hid], hl⟩
    · exact ⟨r, by rw [hs, if_neg hid, hr], .refl r⟩
  have hnew : ∀ {r' : Row}, Sets db db' r' → db.tasks.get r'.id = none →
      ∃ r', db'.tasks.get id = some r' ∧ r.Leads r' := by
    intro r' hs hnone
    have hid : id ≠ r'.id := by
      rintro rfl
      rw [hnone] at hr
      cases hr
    exact ⟨r, by rw [hs, if_neg hid, hr], .refl r⟩
  cases ht with
  | kept h => exact ⟨r, by rw [h, hr], .refl r⟩
  | bare hnone hs => exact hnew hs hnone
  | started _ hnone hs => exact hnew hs hnone
  | noted hr0 hs ht hv hk => exact hset hr0 hs ⟨by rw [ht], Or.inr ⟨hv, ht, hk⟩⟩
  | amended hr0 hs hw hv => exact hset hr0 hs ⟨hw, Or.inl (by omega)⟩
  | advanced hl hr0 hv ht hk hstep hout hent hc =>
    rename_i d event detail eventId now fault loaded out r0
    have hr' : db.tasks.get (moved r0 out.task (loaded.version + 1)
        (advancedProgress loaded out.next now) true).id = some r0 := by
      rw [id_moved, hout]
      exact hr0
    refine hset hr' hc.tasks ⟨?_, Or.inl ?_⟩
    · have hpins := congrArg Engine.pinned hout
      rw [ht]
      exact hpins
    · rw [hv]
      exact Nat.lt_succ_self _

theorem ReadSince.turn {P : Row → Prop} (hP : ∀ r r', r'.kept = r.kept → P r → P r')
    (ht : Turn debug saved db db' e o) (h : ReadSince db v P) : ReadSince db' v P := by
  obtain ⟨r, hr, hle, hpin, hsame⟩ := h
  obtain ⟨r', hr', hl⟩ := ht.leads hr
  rcases hl.moves with hlt | ⟨hv, htask, hkept⟩
  · exact ⟨r', hr', by omega, hpin.trans hl.pinned.symm, fun he => by omega⟩
  · refine ⟨r', hr', by omega, hpin.trans hl.pinned.symm, fun he => ?_⟩
    obtain ⟨ht', hp⟩ := hsame (he.trans hv)
    exact ⟨ht'.trans htask.symm, hP r r' hkept hp⟩

theorem readSince_versioned {r : Row} (hr : db.tasks.get r.id = some r) :
    ReadSince db (versioned r) fun _ => True :=
  ⟨r, hr, le_rfl, rfl, fun _ => ⟨rfl, trivial⟩⟩

theorem reads_step (hi : Reads s) (hs : s.next debug saved e = some (s', o)) : Reads s' := by
  have ht := turn_of_step hi hs
  have hrows : ∀ v ∈ s.rows, ReadSince s'.db v fun _ => True :=
    fun v hv => (hi.rows v hv).turn (fun _ _ _ _ => trivial) ht
  have hdrafts : ∀ d ∈ s.drafts,
      ReadSince s'.db d.row fun r => d.progress.map TaskProgress.kept = r.kept :=
    fun d hd => (hi.drafts d hd).turn (fun _ _ hk hp => hp.trans hk.symm) ht
  cases e with
  | readTask id =>
    obtain ⟨r, hr, h⟩ := Option.map_eq_some_iff.mp hs
    obtain ⟨rfl, rfl⟩ := Prod.mk.inj h
    refine ⟨fun v hv => ?_, hdrafts⟩
    rcases List.mem_cons.mp hv with rfl | hv
    · obtain ⟨-, rfl⟩ := Table.get_eq_some.mp hr
      exact readSince_versioned hr
    · exact hrows v hv
  | readProgress row =>
    simp only [World.next] at hs
    split_ifs at hs with hrow
    obtain ⟨rfl, rfl⟩ := Prod.mk.inj (Option.some.inj hs)
    refine ⟨hrows, fun d hd => ?_⟩
    rcases List.mem_cons.mp hd with rfl | hd
    · obtain ⟨r, hr, hle, hpin, hsame⟩ := hi.rows row hrow
      exact ⟨r, hr, hle, hpin, fun hv => ⟨(hsame hv).1, by rw [hr]; rfl⟩⟩
    · exact hdrafts d hd
  | advance d event detail eventId now fault =>
    simp only [World.next] at hs
    split_ifs at hs
    split at hs
    all_goals
      obtain ⟨rfl, rfl⟩ := Prod.mk.inj (Option.some.inj hs)
      exact ⟨hrows, hdrafts⟩
  | createPipelineTask task now fault =>
    simp only [World.next] at hs
    split at hs
    · obtain ⟨rfl, rfl⟩ := Prod.mk.inj (Option.some.inj hs)
      exact ⟨hrows, hdrafts⟩
    · cases hs
  | amend d assignee status mergeIntent blockReason event now fault =>
    simp only [World.next] at hs
    split_ifs at hs
    obtain ⟨rfl, rfl⟩ := Prod.mk.inj (Option.some.inj hs)
    exact ⟨hrows, hdrafts⟩
  | compareAndSwap row assignee status fault =>
    simp only [World.next] at hs
    split_ifs at hs
    obtain ⟨rfl, rfl⟩ := Prod.mk.inj (Option.some.inj hs)
    exact ⟨hrows, hdrafts⟩
  | createTask task fault =>
    obtain ⟨rfl, rfl⟩ := Prod.mk.inj (Option.some.inj hs)
    exact ⟨hrows, hdrafts⟩
  | note id block attention ack fault =>
    obtain ⟨rfl, rfl⟩ := Prod.mk.inj (Option.some.inj hs)
    exact ⟨hrows, hdrafts⟩
  | mail mail =>
    obtain ⟨rfl, rfl⟩ := Prod.mk.inj (Option.some.inj hs)
    exact ⟨hrows, hdrafts⟩

theorem reads_of_reachable (hr : (tasks debug saved).Reachable s) : Reads s := by
  refine hr.invariant ?_ fun s e s' o hi hs => ?_
  · rintro s rfl
    exact ⟨List.forall_mem_nil _, List.forall_mem_nil _⟩
  · have hs : s.next debug saved e = some (s', o) := hs
    exact reads_step hi hs

end Steps

/-- One successful transition of a task. -/
structure Move where
  before : PipelineState
  event : PipelineEvent
  now : Nat
  after : PipelineState
  actions : List PipelineAction

def Move.transition (m : Move) : Transition PipelineState PipelineEvent (List PipelineAction) :=
  ⟨m.before, m.event, m.after, m.actions⟩

abbrev Step := Transition World Signal Outcome

def moveOf (saved : String → Nat → Option Workflow) (id : String) (t : Step) : Option Move :=
  match t.event, t.output with
  | .advance d event _ _ now _, .advanced (.ok out) =>
    if d.row.task.id = id then
      match load saved d with
      | .ok loaded => some ⟨loaded.state, event, now, out.next, out.actions⟩
      | .error _ => none
    else none
  | _, _ => none

/-- The successful transitions of a task, newest first. -/
def moves (saved : String → Nat → Option Workflow) (id : String) (h : List Step) : List Move :=
  h.filterMap (moveOf saved id)

/-- When the last transition that changed the stage or its attempt happened. -/
def lastEntered (created : Nat) : List Move → Nat
  | [] => created
  | m :: earlier => if position m.after ≠ position m.before then m.now else lastEntered created earlier

/-- The step that created the task with its pipeline. -/
def Created (id : String) (now : Nat) (t : Step) : Prop :=
  t.before.db.tasks.get id = none ∧
    ∃ task fault, task.id = id ∧ t.event = .createPipelineTask task now fault

/-- The stored snapshot of a task is the state after its successful transitions, and its stage was
entered by the last of them that changed it. -/
def Lineage (saved : String → Nat → Option Workflow) (h : List Step) (r : Row)
    (p : PipelineSnapshot) : Prop :=
  ∃ v st created, saved r.task.workflowId r.task.workflowVersion = some v.workflow ∧
    p = st.snapshot ∧ (pipeline r.id v).Run ((moves saved r.id h).map Move.transition) st ∧
    (∃ t ∈ h, Created r.id created t) ∧
    r.stageEnteredAtUnixMs = lastEntered created (moves saved r.id h)

section Lines

variable {debug : PipelineEvent → String} {saved : String → Nat → Option Workflow} {s s' : World}
  {e : Signal} {o : Outcome} {h : List Step} {t : Step} {id : String}

theorem moveOf_other (hno : ∀ out, t.output ≠ .advanced (.ok out)) : moveOf saved id t = none := by
  unfold moveOf
  split
  · rename_i out hout
    exact absurd hout (hno _)
  · rfl

theorem moves_cons_none (hm : moveOf saved id t = none) :
    moves saved id (t :: h) = moves saved id h :=
  List.filterMap_cons_none hm

theorem moves_cons_some {m : Move} (hm : moveOf saved id t = some m) :
    moves saved id (t :: h) = m :: moves saved id h :=
  List.filterMap_cons_some hm

/-- A step that is no transition of the task keeps its lineage. -/
theorem Lineage.keep {r r' : Row} {p : PipelineSnapshot} (hl : Lineage saved h r p)
    (hid : r'.id = r.id) (hpin : pinned r'.task = pinned r.task)
    (hstage : r'.stageEnteredAtUnixMs = r.stageEnteredAtUnixMs)
    (hm : moveOf saved r.id t = none) : Lineage saved (t :: h) r' p := by
  obtain ⟨v, st, created, hwf, hp, hrun, ⟨u, hu, hc⟩, he⟩ := hl
  obtain ⟨hw, hv⟩ := Prod.mk.inj hpin
  refine ⟨v, st, created, by rw [hw, hv, hwf], hp, ?_, ⟨u, List.mem_cons_of_mem _ hu, ?_⟩, ?_⟩
  · rw [hid, moves_cons_none hm]
    exact hrun
  · rw [hid]
    exact hc
  · rw [hstage, hid, moves_cons_none hm]
    exact he

theorem newPipeline_eq_ok {task : Task} {st : PipelineState} {v : ValidatedWorkflow}
    (hn : newPipeline saved task = .ok (st, v)) :
    saved task.workflowId task.workflowVersion = some v.workflow ∧ st = .new task.id v := by
  unfold newPipeline at hn
  obtain ⟨workflow, hwf, hn⟩ := bind_eq_ok.mp hn
  obtain ⟨v', hv, hn⟩ := bind_eq_ok.mp hn
  obtain ⟨rfl, rfl⟩ := Prod.mk.inj (Except.ok.inj hn)
  exact ⟨by rw [validate_eq_ok hv]; exact okOr_eq_ok.mp hwf, rfl⟩

/-- No transition happened to a task that does not exist, and every stored snapshot has a
lineage. -/
structure Lines (saved : String → Nat → Option Workflow) (h : List Step) (s : World) : Prop where
  absent : ∀ id, s.db.tasks.get id = none → moves saved id h = []
  stored : ∀ id r p, s.db.tasks.get id = some r → r.pipeline = some (.snapshot p) →
    Lineage saved h r p

/-- A transition extends the lineage of its task. -/
theorem Lineage.advance {r : Row} {loaded : Loaded} {d : Draft} {event : PipelineEvent}
    {detail : Option String} {eventId : String} {now : Nat} {fault : Option Nat} {out : Advanced}
    (hl : Lineage saved h r loaded.state.snapshot) (hload : load saved d = .ok loaded)
    (hid : r.id = loaded.task.id) (ht : r.task = loaded.task)
    (hstage : r.stageEnteredAtUnixMs = loaded.progress.stageEnteredAtUnixMs)
    (hstep : step loaded.state event = .ok (out.next, out.actions))
    (hout : out.task = advancedTask loaded.task out.next) :
    Lineage saved (⟨s, .advance d event detail eventId now fault, s', .advanced (.ok out)⟩ :: h)
      (moved r out.task (loaded.version + 1) (advancedProgress loaded out.next now) true)
      out.next.snapshot := by
  obtain ⟨v, st, created, hwf, hp, hrun, ⟨u, hu, hc⟩, he⟩ := hl
  obtain ⟨hver, htask, hprog, workflow, snapshot, hwf', hsnap, hst⟩ := load_eq_ok hload
  -- The loaded state is the one that its snapshot was taken of.
  have hstate : loaded.state = st := by
    have hw : workflow = v.workflow := by
      rw [ht, htask, hwf'] at hwf
      exact Option.some.inj hwf
    have hi := (invariant_of_reachable hrun.reachable).workflow
    have hsn : snapshot = st.snapshot := by
      rw [← hp, hst]
      rfl
    rw [hst, hw, hsn, ← hi]
    exact PipelineState.ofSnapshot_snapshot st
  have hmoved : (moved r out.task (loaded.version + 1) (advancedProgress loaded out.next now)
      true).id = r.id := by rw [id_moved, hout, hid]; rfl
  have hmove : moveOf saved r.id
      ⟨s, .advance d event detail eventId now fault, s', .advanced (.ok out)⟩ =
      some ⟨loaded.state, event, now, out.next, out.actions⟩ := by
    simp only [moveOf]
    rw [if_pos (by rw [hid, htask]), hload]
  refine ⟨v, out.next, created, ?_, rfl, ?_, ⟨u, List.mem_cons_of_mem _ hu, ?_⟩, ?_⟩
  · rw [← hwf, ht]
    have hpins := congrArg (fun task : Task => saved task.workflowId task.workflowVersion) hout
    exact hpins
  · rw [hmoved, moves_cons_some hmove, List.map_cons]
    subst hstate
    exact hrun.snoc hstep
  · rw [hmoved]
    exact hc
  · rw [hmoved, moves_cons_some hmove]
    change entered loaded out.next now = _
    unfold entered lastEntered
    rw [← he, hstage]

theorem lines_step (hl : Lines saved h s) (ht : Turn debug saved s.db s'.db e o) :
    Lines saved (⟨s, e, s', o⟩ :: h) s' := by
  have habsent : ∀ id, s'.db.tasks.get id = none → s.db.tasks.get id = none := by
    intro id hnone
    cases hget : s.db.tasks.get id with
    | none => rfl
    | some r =>
      obtain ⟨r', hr', -⟩ := ht.leads hget
      rw [hnone] at hr'
      cases hr'
  -- A step that transitions no task.
  have hquiet : (∀ out, o ≠ .advanced (.ok out)) →
      (∀ id r' p, s'.db.tasks.get id = some r' → r'.pipeline = some (.snapshot p) →
        Lineage saved (⟨s, e, s', o⟩ :: h) r' p ∨ ∃ r, s.db.tasks.get id = some r ∧
          r.pipeline = some (.snapshot p) ∧ pinned r'.task = pinned r.task ∧
          r'.stageEnteredAtUnixMs = r.stageEnteredAtUnixMs) →
      Lines saved (⟨s, e, s', o⟩ :: h) s' := by
    intro hno hold
    have hnone : ∀ id, moveOf saved id ⟨s, e, s', o⟩ = none := fun id => moveOf_other hno
    refine ⟨fun id hget => ?_, fun id r' p hr' hp => ?_⟩
    · rw [moves_cons_none (hnone id)]
      exact hl.absent id (habsent id hget)
    · rcases hold id r' p hr' hp with hlin | ⟨r, hr, hpr, hpin, hstage⟩
      · exact hlin
      · have hid := (Table.get_eq_some.mp hr').2.trans (Table.get_eq_some.mp hr).2.symm
        exact (hl.stored id r p hr hpr).keep hid hpin hstage (hnone r.id)
  -- A step that sets one row, and not to another snapshot.
  have hset : ∀ {r'}, (∀ out, o ≠ .advanced (.ok out)) → Sets s.db s'.db r' →
      (∀ p, r'.pipeline = some (.snapshot p) → Lineage saved (⟨s, e, s', o⟩ :: h) r' p ∨
        ∃ r, s.db.tasks.get r'.id = some r ∧ r.pipeline = some (.snapshot p) ∧
          pinned r'.task = pinned r.task ∧
          r'.stageEnteredAtUnixMs = r.stageEnteredAtUnixMs) →
      Lines saved (⟨s, e, s', o⟩ :: h) s' := by
    intro r' hno hs hrow
    refine hquiet hno fun id r1 p hr1 hp => ?_
    rw [hs id] at hr1
    split_ifs at hr1 with hid
    · obtain rfl := Option.some.inj hr1
      rw [hid]
      exact hrow p hp
    · exact Or.inr ⟨r1, hr1, hp, rfl, rfl⟩
  cases ht with
  | kept hk hno =>
    refine hquiet hno fun id r' p hr' hp => Or.inr ⟨r', ?_, hp, rfl, rfl⟩
    rw [← hk]
    exact hr'
  | bare hnone hs =>
    refine hset (fun _ ho => by cases ho) hs fun p hp => ?_
    have hp : (none : Option PipelineText) = some (.snapshot p) := hp
    cases hp
  | started hn hnone hs =>
    rename_i task now fault st w
    refine hset (fun _ ho => by cases ho) hs fun p hp => Or.inl ?_
    obtain ⟨hwf, rfl⟩ := newPipeline_eq_ok hn
    have hp : PipelineText.snapshot (PipelineState.new task.id w).snapshot = .snapshot p :=
      Option.some.inj hp
    have hnil : moves saved task.id (⟨s, .createPipelineTask task now fault, s', .other⟩ :: h) = [] := by
      rw [moves_cons_none (moveOf_other fun out ho => by cases ho)]
      exact hl.absent task.id hnone
    refine ⟨w, .new task.id w, now, hwf, (PipelineText.snapshot.inj hp).symm, ?_,
      ⟨_, List.mem_cons_self, hnone, task, fault, rfl, rfl⟩, ?_⟩
    · change (pipeline task.id w).Run ((moves saved task.id _).map Move.transition) _
      rw [hnil]
      exact .start rfl
    · change now = lastEntered now (moves saved task.id _)
      rw [hnil]
      rfl
  | noted hr hs ht hv hk =>
    rename_i r r'
    refine hset (fun _ ho => by cases ho) hs fun p hp => Or.inr ⟨r, hr, ?_⟩
    have hk' : r'.kept = some (.snapshot p, r'.stageEnteredAtUnixMs, r'.mergeIntent) := by
      simp [Row.kept, Row.progress, hp, TaskProgress.kept]
    rw [hk] at hk'
    obtain ⟨hpipe, hstage, -⟩ := of_kept (p := ⟨.snapshot p, _, _, none⟩) hk'
    exact ⟨hpipe, by rw [ht], hstage.symm⟩
  | amended hr hs hw hv hk =>
    rename_i r r'
    refine hset (fun _ ho => by cases ho) hs fun p hp => Or.inr ⟨r, hr, (hk p hp).1, hw, (hk p hp).2⟩
  | advanced hload hr hv ht hk hstep hout hent hc =>
    rename_i d event detail eventId now fault loaded out r
    obtain ⟨hver, htask, hprog, workflow, snapshot, hwf', hsnap, hst⟩ := load_eq_ok hload
    have hrid : r.id = loaded.task.id := (Table.get_eq_some.mp hr).2
    obtain ⟨htext, hstage, -⟩ := of_kept hk
    have hpipe : r.pipeline = some (.snapshot loaded.state.snapshot) := by
      rw [htext, hsnap, hst]
      rfl
    have hother : ∀ id, id ≠ r.id → moveOf saved id
        ⟨s, .advance d event detail eventId now fault, s', .advanced (.ok out)⟩ = none := by
      intro id hid
      have hne : d.row.task.id ≠ id := by
        rw [← htask, ← hrid]
        exact Ne.symm hid
      simp only [moveOf]
      rw [if_neg hne]
    have hmid := hc.tasks
    have hid' : (moved r out.task (loaded.version + 1) (advancedProgress loaded out.next now)
        true).id = r.id := by
      rw [id_moved, hout, hrid]
      rfl
    refine ⟨fun id hget => ?_, fun id r' p hr' hp => ?_⟩
    · have hne : id ≠ r.id := by
        rintro rfl
        rw [hmid, if_pos hid'.symm] at hget
        cases hget
      rw [moves_cons_none (hother id hne)]
      exact hl.absent id (habsent id hget)
    · rw [hmid id, hid'] at hr'
      split_ifs at hr' with hid
      · obtain rfl := Option.some.inj hr'
        have hp : PipelineText.snapshot out.next.snapshot = .snapshot p := Option.some.inj hp
        rw [← PipelineText.snapshot.inj hp]
        have hlin := hl.stored r.id r _ (hrid ▸ hr) hpipe
        exact hlin.advance hload hrid ht hstage hstep hout
      · have hr'id := (Table.get_eq_some.mp hr').2
        refine (hl.stored id r' p hr' hp).keep rfl rfl rfl (hother r'.id ?_)
        rw [hr'id]
        exact hid

theorem lines_of_run (hr : (tasks debug saved).Run h s) : Lines saved h s := by
  refine hr.invariant ?_ fun h s e s' o hr hl hs =>
    lines_step hl (turn_of_step (reads_of_reachable hr.reachable) hs)
  rintro s rfl
  exact ⟨fun _ _ => rfl, fun _ _ _ hget => nomatch hget⟩

/-- A transition that is refused leaves every table. -/
theorem db_of_refused {d : Draft} {event : PipelineEvent} {detail : Option String}
    {eventId : String} {now : Nat} {fault : Option Nat} {refusal : Refusal}
    (hs : s.next debug saved (.advance d event detail eventId now fault) =
      some (s', .advanced (.error refusal))) : s'.db = s.db := by
  simp only [World.next] at hs
  split_ifs at hs
  cases hl : load saved d with
  | error e =>
    rw [hl] at hs
    obtain ⟨rfl, -⟩ := Prod.mk.inj (Option.some.inj hs)
    rfl
  | ok loaded =>
    rw [hl] at hs
    obtain ⟨rfl, ho⟩ := Prod.mk.inj (Option.some.inj hs)
    rcases advance_cases with ⟨e, h⟩ | ⟨out, db', h, -⟩
    · rw [h]
    · rw [h] at ho
      cases ho

/-- A transition is atomic, and the stored snapshots of a task are one run of its pipeline. -/
theorem transitions_atomic_and_linear (hr : (tasks debug saved).Run h s) :
    (∀ t ∈ h, ∀ d event detail eventId now fault,
      t.event = .advance d event detail eventId now fault →
      (∀ e, t.output = .advanced (.error e) → t.after.db = t.before.db) ∧
      ∀ out, t.output = .advanced (.ok out) → ∃ loaded r, load saved d = .ok loaded ∧
        t.before.db.tasks.get loaded.task.id = some r ∧ r.version = loaded.version ∧
        r.pipeline = some (.snapshot loaded.state.snapshot) ∧
        step loaded.state event = .ok (out.next, out.actions) ∧
        Sets t.before.db t.after.db { r with
          task := { r.task with
            status := statusOf out.next.status
            mergeCommit := out.next.mergeCommit }
          version := r.version + 1
          pipeline := some (.snapshot out.next.snapshot)
          stageEnteredAtUnixMs :=
            if position out.next ≠ position loaded.state then now else r.stageEnteredAtUnixMs
          blockReason := none
          attentionReason := none } ∧
        t.after.db.events = t.before.db.events ++
          [⟨r.id, record debug event detail eventId now⟩] ∧
        match confirmationOf loaded.state event with
        | none => t.after.db.mail = t.before.db.mail
        | some id => Confirms t.before.db.mail t.after.db.mail id) ∧
    (∀ t ∈ h, ∀ id r, t.before.db.tasks.get id = some r →
      ∃ r', t.after.db.tasks.get id = some r' ∧ r.Leads r') ∧
    ∀ r ∈ s.db.tasks.rows, ∀ p, r.pipeline = some (.snapshot p) → Lineage saved h r p := by
  refine ⟨fun t ht d event detail eventId now fault he => ⟨fun e ho => ?_, fun out ho => ?_⟩,
    fun t ht id r hget => ?_, fun r hmem p hp => ?_⟩
  · obtain ⟨-, hs⟩ := hr.of_mem t ht
    rw [he, ho] at hs
    exact db_of_refused hs
  · obtain ⟨hreach, hs⟩ := hr.of_mem t ht
    rw [he, ho] at hs
    cases turn_of_step (reads_of_reachable hreach) hs with
    | kept _ hno => exact absurd rfl (hno out)
    | advanced hload hget hv htask hk hstep hout hent hc =>
      rename_i loaded r
      obtain ⟨-, -, -, workflow, snapshot, -, hsnap, hst⟩ := load_eq_ok hload
      obtain ⟨hpipe, hstage, hintent⟩ := of_kept hk
      have hid : r.id = loaded.task.id := (Table.get_eq_some.mp hget).2
      have hmoved : moved r out.task (loaded.version + 1) (advancedProgress loaded out.next now)
          true = { r with
            task := { r.task with
              status := statusOf out.next.status
              mergeCommit := out.next.mergeCommit }
            version := r.version + 1
            pipeline := some (.snapshot out.next.snapshot)
            stageEnteredAtUnixMs :=
              if position out.next ≠ position loaded.state then now else r.stageEnteredAtUnixMs
            blockReason := none
            attentionReason := none } := by
        rw [hout, ← htask, ← hv]
        simp only [moved, Row.write, Row.setProgress, advancedProgress, advancedTask, entered,
          hstage, hintent, if_true]
      rw [hmoved] at hc
      refine ⟨loaded, r, hload, hget, hv, ?_, hstep, hc.tasks, hc.events, hc.mail⟩
      rw [hpipe, hsnap, hst]
      rfl
  · obtain ⟨hreach, hs⟩ := hr.of_mem t ht
    exact (turn_of_step (reads_of_reachable hreach) hs).leads hget
  · exact (lines_of_run hr).stored r.id r p (Table.get_of_mem hmem) hp

end Lines

/-- Three transitions start on one version: a disk error loses the first, the second goes
through and the third finds the version moved. -/
theorem transitions_atomic_and_linear_conflict :
    let debug : PipelineEvent → String := fun _ => "Start"
    let saved : String → Nat → Option Workflow := fun id version =>
      if id = "research" ∧ version = 1 then some builtinResearch else none
    let task := Task.new "t-1" "Research" "general" "research" 1
    let progress : Option TaskProgress := match newPipeline saved task with
      | .ok (st, _) => some ⟨.snapshot st.snapshot, 100, none, none⟩
      | .error _ => none
    let played := Machine.play (World.next debug saved) [] .empty [.createPipelineTask task 100 none, .readTask "t-1",
      .readProgress ⟨1, task⟩, .advance ⟨⟨1, task⟩, progress⟩ .start none "e-1" 200 (some 3),
      .advance ⟨⟨1, task⟩, progress⟩ .start none "e-2" 300 none,
      .advance ⟨⟨1, task⟩, progress⟩ .start none "e-3" 400 none]
    (played.2.db.tasks.get "t-1").map (fun r => (r.version, r.stageEnteredAtUnixMs)) =
        some (2, 300) ∧ played.2.db.events.length = 1 ∧
      ∀ r ∈ played.2.db.tasks.rows, ∀ p, r.pipeline = some (.snapshot p) →
        Lineage saved played.1 r p := by
  intro debug saved task progress played
  have hr : (tasks debug saved).Run played.1 played.2 := .play (fun _ _ _ _ hs => hs) (.start rfl)
  exact ⟨by decide +kernel, by decide +kernel, (transitions_atomic_and_linear hr).2.2⟩

end Agend.Tasks
