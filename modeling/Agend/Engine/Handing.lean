import Agend.Engine.Stepping

/-! Whom the engine hands unfinished tasks to, whatever happens to the instances meanwhile: nobody
but those it found when it last read the list of instances. -/
namespace Agend.Engine

open Agend.Library Agend.Pipeline Agend.Runtime Program

/-- Whom an unfinished task goes to that it is written for, unless it is held like that already. -/
def handed (tasks : Table TaskRow.id) (task : Task) : Option String :=
  if task.status.isClosed || (tasks.get task.id).any fun r =>
      r.isOpen && r.task.assignee = task.assignee then none
  else task.assignee

/-- The instance that a write of the engine hands an unfinished task to. -/
def Call.handsOver (tasks : Table TaskRow.id) : Call → Option String
  | .advancePipeline task _ _ _ | .advanceTask task _ _ _ | .compareAndSwapTask task _
  | .createPipelineTask task _ => handed tasks task
  | _ => none

/-- The tasks, which only the engine moves, and the instances that it found last. -/
structure Seen where
  tasks : Table TaskRow.id
  listed : List String

def Seen.row (g : Seen) (t : String) : Option TaskRow := g.tasks.get t

/-- The list is read anew, or stays; a reading that fails finds nobody. -/
def listedAfter : (c : Call) → Except Refusal c.Reply → List String → List String
  | .instances, .ok found, _ => found.map (·.1.id)
  | .instances, .error _, _ => []
  | _, _, listed => listed

/-- Whatever the instances are at a call, a task goes to nobody who was not found. -/
def seen : View interface Seen where
  step g c reply g' := ∃ (w : World) (a : Answer), w.tasks = g.tasks ∧ reply = (w.exec c a).1 ∧
    g' = ⟨(w.exec c a).2.tasks, listedAfter c reply g.listed⟩
  duty g c := ∀ i, Call.handsOver g.tasks c = some i → i ∈ g.listed

/-- The tasks outside `T` keep their status and their pipeline. -/
def Stays (T : String → Prop) (g g' : Seen) : Prop :=
  ∀ t r, ¬ T t → g.row t = some r →
    ∃ r', g'.row t = some r' ∧ r'.task.status = r.task.status ∧ r'.pipeline = r.pipeline

variable {T T' : String → Prop} {g g' : Seen} {c : Call} {r : TaskRow} {t id i : String}
  {task : Task} {l : Loaded} {e : PipelineEvent} {α β : Type}

instance : IsPreorder Seen (Stays T) where
  refl g t r _ hr := ⟨r, hr, rfl, rfl⟩
  trans g1 g2 g3 h h' t r ht hr := by
    obtain ⟨r2, hr2, hs2, hp2⟩ := h t r ht hr
    obtain ⟨r3, hr3, hs3, hp3⟩ := h' t r2 ht hr2
    exact ⟨r3, hr3, hs3.trans hs2, hp3.trans hp2⟩

theorem Stays.wider (h : ∀ t, T t → T' t) (hs : Stays T g g') : Stays T' g g' :=
  fun t r ht hr => hs t r (fun hT => ht (h t hT)) hr

theorem Stays.of_tasks (h : g'.tasks = g.tasks) : Stays T g g' := fun t r _ hr =>
  ⟨r, by rwa [Seen.row, h], rfl, rfl⟩

theorem Stays.put {r' : TaskRow} {listed : List String} (h : ¬ T r'.id → ∀ r,
    g.row r'.id = some r → r'.task.status = r.task.status ∧ r'.pipeline = r.pipeline) :
    Stays T g ⟨g.tasks.put r', listed⟩ := by
  intro t r ht hr
  by_cases he : t = r'.id
  · subst he
    exact ⟨r', by rw [Seen.row, Table.get_put, if_pos rfl], h ht r hr⟩
  · exact ⟨r, by rwa [Seen.row, Table.get_put, if_neg he], rfl, rfl⟩

/-- What the engine's programs owe while the tasks outside `T` stay as they are. -/
abbrev heed (T : String → Prop) : View interface Seen := seen.within (Stays T)

/-! The rules for calls. -/

/-- The call writes a task. -/
def Call.writes : Call → Bool
  | .advancePipeline _ _ _ _ | .advanceTask _ _ _ _ | .compareAndSwapTask _ _ | .taskNote _ _ _ _
  | .createPipelineTask _ _ => true
  | _ => false

theorem handsOver_of_writes (h : c.writes = false) {tasks : Table TaskRow.id} :
    Call.handsOver tasks c = none := by
  cases c <;> first | rfl | cases h

theorem tasks_write {w : World} {result : Except Refusal World}
    (h : ∀ w', result = .ok w' → w'.tasks = w.tasks) : (w.write result).2.tasks = w.tasks := by
  unfold World.write
  cases result with
  | error e => rfl
  | ok w' => exact h w' rfl

theorem tasks_putBinding {w w' : World} {b : BindingRow} (h : w.putBinding b = .ok w') :
    w'.tasks = w.tasks := by
  unfold World.putBinding at h
  split at h <;> split_ifs at h <;> rw [← Except.ok.inj h]

theorem tasks_perform (h : c.writes = false) (w : World) (a : Answer) :
    (w.perform a c).2.tasks = w.tasks := by
  cases c with
  | advancePipeline | advanceTask | compareAndSwapTask | taskNote | createPipelineTask => cases h
  | saveWorkflow workflow =>
    refine tasks_write fun w' hw => ?_
    unfold World.saveWorkflow at hw
    split_ifs at hw
    rw [← Except.ok.inj hw]
  | putBinding b | ensure repo b => exact tasks_write fun w' hw => tasks_putBinding hw
  | claimMessage new =>
    simp only [World.perform, World.claim]
    split <;> rfl
  | joinTeam team instanceId role =>
    refine tasks_write fun w' hw => ?_
    unfold World.joinTeam at hw
    split_ifs at hw
    split at hw
    · rw [← Except.ok.inj hw]
    · cases hw
  | addTeam team =>
    refine tasks_write fun w' hw => ?_
    unfold World.addTeam at hw
    split_ifs at hw
    rw [← Except.ok.inj hw]
  | setTeamWorkflow team workflow =>
    refine tasks_write fun w' hw => ?_
    unfold World.setTeamWorkflow at hw
    split at hw
    · rw [← Except.ok.inj hw]
    · cases hw
  | addInstance agent =>
    refine tasks_write fun w' hw => ?_
    unfold World.addInstance at hw
    split_ifs at hw
    rw [← Except.ok.inj hw]
  | _ => rfl

theorem listedAfter_eq (h : c ≠ .instances) {reply : Except Refusal c.Reply}
    {listed : List String} : listedAfter c reply listed = listed := by
  cases c with
  | instances => exact absurd rfl h
  | _ => rfl

/-- A call fails and changes nothing, or goes through on some world with these tasks. -/
theorem watched_call (hc : c ≠ .instances) {Q : Except Refusal c.Reply → Seen → Prop}
    (hd : ∀ i, Call.handsOver g.tasks c = some i → i ∈ g.listed) (fail : ∀ e, Q (.error e) g)
    (h : ∀ (w : World) (a : Answer), w.tasks = g.tasks → Q (w.perform a c).1 ⟨(w.perform a c).2.tasks, g.listed⟩ ∧
      Stays T g ⟨(w.perform a c).2.tasks, g.listed⟩) : Watched (heed T) (call c) Q g := by
  have hstep : ∀ reply g', seen.step g c reply g' → Q reply g' ∧ Stays T g g' := by
    rintro reply g' ⟨w, a, hw, rfl, rfl⟩
    rw [listedAfter_eq hc]
    rcases fault_or_perform w c a with ⟨reason, -, he⟩ | ⟨-, he⟩
    · rw [he]
      exact ⟨hw ▸ fail _, .of_tasks hw⟩
    · rw [he]
      exact h w a hw
  exact ⟨⟨hd, fun reply g' hg => (hstep reply g' hg).2⟩, fun reply g' hg => (hstep reply g' hg).1⟩

/-- What a call that writes no task is told. -/
theorem watched_told (hc : c ≠ .instances) (hw : c.writes = false) :
    Watched (heed T) (call c)
      (After (fun x g' => g' = g ∧ ∃ w, w.tasks = g.tasks ∧ Replies w c x) fun _ g' => g' = g) g := by
  refine watched_call hc (fun i hi => ?_) (fun _ => rfl) fun w a htasks => ?_
  · rw [handsOver_of_writes hw] at hi
    cases hi
  · have heq : (⟨(w.perform a c).2.tasks, g.listed⟩ : Seen) = g := by
      rw [tasks_perform hw, htasks]
    rw [heq]
    refine ⟨?_, refl_of (Stays T) g⟩
    cases hx : (w.perform a c).1 with
    | error e => rfl
    | ok x => exact ⟨rfl, w, htasks, a, hx⟩

theorem watched_toldThen (hc : c ≠ .instances) (hw : c.writes = false) {f : c.Reply → Routine β}
    {Q : Except Refusal β → Seen → Prop}
    (ok : ∀ x (w : World), w.tasks = g.tasks → Replies w c x → Watched (heed T) (f x) Q g)
    (fail : ∀ e, Q (.error e) g) : Watched (heed T) (call c >>= f) Q g := by
  refine (watched_told hc hw).bind (fun x g' hx => ?_) fun e g' he => he ▸ fail e
  obtain ⟨rfl, w, htasks, hreply⟩ := hx
  exact ok x w htasks hreply

/-- The list of instances is what was found last. -/
theorem watched_instances : Watched (heed T) (call .instances)
    (After (fun found g' => g' = ⟨g.tasks, found.map (·.1.id)⟩) fun _ _ => True) g := by
  have hstep : ∀ reply g', seen.step g .instances reply g' →
      After (fun found g' => g' = ⟨g.tasks, found.map (·.1.id)⟩) (fun _ _ => True) reply g' ∧
        g'.tasks = g.tasks := by
    rintro reply g' ⟨w, a, hw, rfl, rfl⟩
    rcases fault_or_perform w .instances a with ⟨reason, -, he⟩ | ⟨-, he⟩
    · rw [he]
      exact ⟨trivial, hw⟩
    · rw [he]
      exact ⟨congrArg (Seen.mk · _) hw, hw⟩
  exact ⟨⟨(fun _ hi => nomatch hi), fun reply g' hg => .of_tasks (hstep reply g' hg).2⟩,
    fun reply g' hg => (hstep reply g' hg).1⟩

theorem heeds_call (hw : c.writes = false) : Heeds (heed T) (call c) := by
  intro g
  by_cases hc : c = .instances
  · subst hc
    exact watched_instances.mono fun _ _ _ => trivial
  · exact (watched_told hc hw).mono fun _ _ _ => trivial

/-- A task that is written for nobody, or closed, goes to nobody. -/
theorem handed_eq_none {tasks : Table TaskRow.id}
    (h : task.assignee = none ∨ task.status.isClosed = true) : handed tasks task = none := by
  unfold handed
  split_ifs with hno
  · rfl
  · rcases h with h | h
    · exact h
    · rw [h, Bool.true_or] at hno
      exact absurd rfl hno

/-- A task that stays with who held it goes to nobody. -/
theorem handed_of_held {tasks : Table TaskRow.id} (hr : tasks.get task.id = some r)
    (ho : r.isOpen = true) (ha : r.task.assignee = task.assignee) : handed tasks task = none := by
  rw [handed, if_pos]
  simp [hr, ho, ha]

/-- The row that was read is written. -/
theorem watched_advanceTask {data : TaskProgress} {event : String}
    (hr : g.row task.id = some r) (hd : ∀ i, handed g.tasks task = some i → i ∈ g.listed)
    (hs : ¬ T task.id → task.status = r.task.status ∧ data.pipeline = r.pipeline) :
    Watched (heed T) (Store.advanceTask task r.version data event) (fun _ _ => True) g := by
  refine watched_call (by simp) hd (fun _ => trivial) fun w a htasks => ⟨trivial, ?_⟩
  have hrow : w.row task.id = some r := by rwa [World.row, htasks]
  obtain ⟨progress, hdata, hadv⟩ : ∃ progress : Progress, progress.data = data ∧
      w.advance task r.version data false =
        (true, w.putRow ⟨task, r.version + 1, some progress⟩) := advance_eq hrow
  change Stays T g ⟨(w.advance task r.version data false).2.tasks, g.listed⟩
  rw [hadv, World.putRow, htasks]
  refine .put fun hT r0 hr0 => ?_
  obtain rfl := Option.some.inj (hr.symm.trans hr0)
  refine ⟨(hs hT).1, ?_⟩
  rw [← (hs hT).2, ← hdata]
  rfl

theorem watched_compareAndSwap {version : Nat} (hr : g.row task.id = some r)
    (ha : task.assignee = none) (hs : task.status = r.task.status) :
    Watched (heed T) (Store.compareAndSwapTask task version) (fun _ _ => True) g := by
  refine watched_call (by simp) (fun i hi => ?_) (fun _ => trivial) fun w a htasks => ⟨trivial, ?_⟩
  · rw [Call.handsOver, handed_eq_none (Or.inl ha)] at hi
    cases hi
  · change Stays T g ⟨(w.compareAndSwap task version).2.tasks, g.listed⟩
    have hrow : w.row task.id = some r := by rwa [World.row, htasks]
    rw [World.compareAndSwap, hrow]
    dsimp only
    split_ifs
    · rw [World.putRow, htasks]
      refine .put fun _ r0 hr0 => ?_
      obtain rfl := Option.some.inj (hr.symm.trans hr0)
      exact ⟨hs, rfl⟩
    · exact .of_tasks htasks

theorem heeds_taskNote {block attention : Option String} {ack : Bool} :
    Heeds (heed T) (Store.taskNote t block attention ack) := by
  intro g
  refine watched_call (by simp) (fun _ hi => nomatch hi) (fun _ => trivial) fun w a htasks =>
    ⟨trivial, ?_⟩
  change Stays T g ⟨(w.note t block attention ack).tasks, g.listed⟩
  cases hrow : w.row t with
  | none =>
    rw [World.note, hrow]
    exact .of_tasks htasks
  | some r =>
    rw [World.note, hrow]
    dsimp only
    rw [World.putRow, htasks]
    refine .put fun _ r0 hr0 => ?_
    have hid : r.id = t := World.id_of_row hrow
    have hr0 : g.row r.id = some r0 := hr0
    rw [World.row, htasks] at hrow
    rw [hid, Seen.row, hrow] at hr0
    obtain rfl := Option.some.inj hr0
    refine ⟨rfl, ?_⟩
    rw [TaskRow.pipeline, TaskRow.pipeline]
    cases r.progress <;> rfl

/-! Cleaning up hands nothing over. -/

theorem heeds_team : Heeds (heed T) (team t) :=
  (heeds_call (c := .teams) rfl).bind fun _ => .orRaise

theorem heeds_note {reason : Option String} : Heeds (heed T) (note t reason) :=
  (heeds_call (c := .loadTask t) rfl).bind fun _ => Heeds.orRaise.bind fun _ => heeds_taskNote

theorem heeds_releaseMode {b : BindingRow} {mode : BindingRelease} :
    Heeds (heed T) (releaseMode b mode) := by
  refine (heeds_call (c := .loadTask b.task) rfl).bind fun _ => Heeds.orRaise.bind fun _ => ?_
  refine heeds_team.bind fun _ => ?_
  split
  · refine (heeds_call (c := .settings) rfl).bind fun _ => Heeds.check.bind fun _ => ?_
    refine (heeds_call (c := .release _ b mode) rfl).bind fun patch => ?_
    split
    · exact heeds_call (c := .appendEvent _ _) rfl
    · exact .pure
  · exact heeds_call (c := .deleteBinding b.instanceId) rfl

theorem heeds_cleanupRemote : Heeds (heed T) (cleanupRemote task) := by
  refine heeds_team.bind fun team => ?_
  split
  · exact .pure
  · refine (heeds_call (c := .cleanupRemote _ _ _) rfl).attempt.bind fun result => ?_
    split
    · exact .pure
    · exact heeds_note

theorem heeds_releaseOrDefer {merged report : Bool} {b : BindingRow} :
    Heeds (heed T) (releaseOrDefer merged report b) := by
  refine heeds_releaseMode.attempt.bind fun result => ?_
  split
  · exact .pure
  · split
    · exact .raise
    · exact .pure

/-- The row that is read is freed. -/
theorem watched_free {f : Bool → Routine Unit} (hr : g.row t = some r)
    (hf : ∀ b, Heeds (heed T) (f b)) : Watched (heed T)
      (Store.compareAndSwapTask { r.task with assignee := none } r.version >>= f)
      (fun _ _ => True) g := by
  have hid : r.task.id = t := (Table.get_eq_some.mp hr).2
  have hrow : g.row ({ r.task with assignee := none } : Task).id = some r := by
    rw [← hr, ← hid]
  exact (watched_compareAndSwap hrow rfl rfl).bind (fun b g' _ => hf b g') fun _ _ _ => trivial

theorem heeds_freeHolder : Heeds (heed T) (freeHolder task) := by
  refine (heeds_call (c := .bindings) rfl).bind fun bindings => ?_
  split
  · exact .pure
  · intro g
    refine watched_toldThen (c := .loadTask task.id) (by simp) rfl
      (fun (row : Option TaskRow) w htasks hrow => ?_) fun _ => trivial
    refine Watched.orRaiseThen (fun r hr => ?_) fun _ => trivial
    obtain rfl := hr
    rw [replies_loadTask, World.row, htasks] at hrow
    split
    · exact trivial
    · exact watched_free hrow.symm fun _ => .check

theorem heeds_cleanupTerminal {report : Bool} : Heeds (heed T) (cleanupTerminal task report) := by
  unfold cleanupTerminal
  split
  · exact .pure
  · refine (heeds_call (c := .loadTask task.id) rfl).bind fun row => ?_
    have hrest : Heeds (heed T) (do
        let bindings ← Store.bindings
        forEach (releaseOrDefer task.mergeCommit.isSome report)
          (bindings.filter (·.task = task.id))
        freeHolder task) :=
      (heeds_call (c := .bindings) rfl).bind fun _ =>
        (Heeds.forEach fun _ => heeds_releaseOrDefer).bind fun _ => heeds_freeHolder
    dsimp only
    split
    · exact hrest
    · exact heeds_cleanupRemote.bind fun _ => hrest

/-- Closing a task hands nothing over. -/
theorem heeds_failRestore (hT : T t) : Heeds (heed T) (failRestore t) := by
  intro g
  refine watched_toldThen (c := .loadTask t) (by simp) rfl
    (fun (row : Option TaskRow) w htasks hrow => ?_) fun _ => trivial
  refine Watched.orRaiseThen (fun r hr => ?_) fun _ => trivial
  obtain rfl := hr
  rw [replies_loadTask, World.row, htasks] at hrow
  have hid : r.task.id = t := (Table.get_eq_some.mp hrow.symm).2
  refine watched_toldThen (c := .newId) (by simp) rfl (fun (event : String) _ _ _ => ?_)
    fun _ => trivial
  refine (watched_advanceTask (r := r) (by rw [hid]; exact hrow.symm) (fun i hi => ?_)
    fun hno => ?_).bind (fun b g' _ => ?_) fun _ _ _ => trivial
  · rw [handed_eq_none (Or.inr rfl)] at hi
    cases hi
  · exact absurd (show T r.task.id from hid ▸ hT) hno
  · exact (Heeds.check.bind fun _ => heeds_cleanupTerminal) g'

/-- A failure closes the task, and is reported all the same. -/
theorem watched_orFail {p : Routine Unit} {Q : Seen → Prop} (hT : T t)
    (hp : Watched (heed T) p (After (fun _ g' => Q g') fun _ _ => True) g) :
    Watched (heed T) (orFail t p) (After (fun _ g' => Q g') fun _ _ => True) g := by
  refine hp.attemptThen fun result g' hr => ?_
  cases result with
  | ok => exact hr
  | error e =>
    exact (heeds_failRestore hT g').bind (fun _ _ _ => trivial) fun _ _ _ => trivial

/-! Whoever is assigned was found. -/

theorem mem_of_handed {tasks : Table TaskRow.id} (h : handed tasks task = some i) :
    task.assignee = some i := by
  unfold handed at h
  split_ifs at h
  exact h

/-- The row that is read goes to an instance that was found, or to nobody. -/
theorem watched_reassign {a : Option String} {p : Progress} {event : String}
    {f : Bool → Routine β} (hr : g.row t = some r) (hp : r.progress = some p)
    (ha : ∀ i, a = some i → i ∈ g.listed) (hf : ∀ b, Heeds (heed T) (f b)) : Watched (heed T)
      (Store.advanceTask { r.task with assignee := a } r.version p.data event >>= f)
      (fun _ _ => True) g := by
  have hid : r.task.id = t := (Table.get_eq_some.mp hr).2
  have hrow : g.row ({ r.task with assignee := a } : Task).id = some r := by
    rw [← hr, ← hid]
  refine (watched_advanceTask hrow (fun i hi => ha i (mem_of_handed hi)) fun _ => ⟨rfl, ?_⟩).bind
    (fun b g' _ => hf b g') fun _ _ _ => trivial
  rw [TaskRow.pipeline, hp]
  rfl

theorem watched_takeTask {st : PipelineState} (hi : i ∈ g.listed) :
    Watched (heed T) (takeTask task st i) (fun _ _ => True) g := by
  refine watched_toldThen (c := .loadTask task.id) (by simp) rfl
    (fun (row : Option TaskRow) w htasks hrow => ?_) fun _ => trivial
  refine Watched.orRaiseThen (fun r hr => ?_) fun _ => trivial
  obtain rfl := hr
  rw [replies_loadTask, World.row, htasks] at hrow
  refine Watched.orRaiseThen (fun p hp => ?_) fun _ => trivial
  exact watched_reassign hrow.symm hp (fun j hj => Option.some.inj hj ▸ hi) fun _ => .check

theorem heeds_deliver {recipient message body : String} {about : Option String} :
    Heeds (heed T) (deliver recipient message about body) := by
  refine (heeds_call (c := .members) rfl).bind fun members => Heeds.orRaise.bind fun member => ?_
  refine (heeds_call (c := .claimMessage _) rfl).bind fun claim => ?_
  split
  · exact .raise
  · split
    · exact .pure
    · dsimp only
      split
      · exact Heeds.pure.bind fun _ => heeds_call (c := .advanceMessage _ _) rfl
      · exact (heeds_call (c := .deliver _ _) rfl).bind fun _ =>
          heeds_call (c := .advanceMessage _ _) rfl

theorem heeds_bindWorktree {st : PipelineState} {repo : Option String} {review : Bool} :
    Heeds (heed T) (bindWorktree task st repo review i) := by
  refine (heeds_call (c := .settings) rfl).bind fun (me : Settings) => ?_
  have hensure : ∀ repo' b, Heeds (heed T) (do
      check me.git (invalid "real git unavailable")
      Executor.ensure repo' b) :=
    fun _ _ => Heeds.check.bind fun _ => heeds_call (c := .ensure _ _) rfl
  dsimp only
  split
  · refine (heeds_call (c := .putBinding _) rfl).bind fun _ => ?_
    split
    · exact hensure _ _
    · exact .pure
  · split
    · refine (heeds_call (c := .putBinding _) rfl).bind fun _ => ?_
      split
      · exact hensure _ _
      · exact .pure
    · split
      · exact hensure _ _
      · exact .pure

/-- A task that nobody holds goes to an instance that was found. -/
theorem watched_dispatch {st : PipelineState} {review : Bool}
    (hi : review = true ∨ task.assignee.isSome = true ∨ i ∈ g.listed) :
    Watched (heed T) (dispatch task st review i) (fun _ _ => True) g := by
  have hrest : Heeds (heed T) (do
      let t ← team task.teamId
      bindWorktree task st t.repo review i
      let me ← Executor.settings
      deliver i (dispatchId (ticket st) review i) (some task.id)
        (dispatchBody (worktreeOf me.home t.repo task st review i) task st review)) :=
    heeds_team.bind fun _ => heeds_bindWorktree.bind fun _ =>
      (heeds_call (c := .settings) rfl).bind fun _ => heeds_deliver
  unfold dispatch
  dsimp only
  split
  · rename_i htake
    simp only [Bool.and_eq_true, Bool.not_eq_true', Option.isNone_iff_eq_none] at htake
    refine Watched.bind (watched_takeTask ?_) (fun _ g' _ => hrest g') fun _ _ _ => trivial
    rcases hi with hi | hi | hi
    · rw [hi] at htake
      exact absurd htake.1 nofun
    · rw [htake.2] at hi
      cases hi
    · exact hi
  · exact hrest g

theorem watched_decideInstance {st : PipelineState} {role : String} {review : Bool}
    {members : List Agent} {bindings : List BindingRow} :
    Watched (heed T) (decideInstance task st role review members bindings)
      (After (fun d g' => ∀ i, d = .assigned i →
        review = true ∨ task.assignee.isSome = true ∨ i ∈ g'.listed) fun _ _ => True) g := by
  refine (heeds_call (c := .tasks) rfl g).bind (fun tasks g1 _ => ?_) fun _ _ _ => trivial
  refine watched_instances.bind (fun (found : List (Agent × InstanceStatus)) g2 hx => ?_)
    fun _ _ _ => trivial
  obtain rfl := hx
  intro i hd
  cases hreview : review with
  | true => exact Or.inl rfl
  | false =>
    cases hheld : task.assignee with
    | some holder => exact Or.inr (Or.inl rfl)
    | none =>
      right
      right
      have hnone : existingReviewer task st review bindings = none := by
        simp [existingReviewer, hreview]
      rw [hnone] at hd
      have hpurpose : (requestFor task st role review members found).purpose = .newTask := by
        simp [requestFor, hreview, hheld]
      obtain ⟨candidate, hc, rfl, -⟩ := choose_free (fun _ _ _ _ h => by simp [hpurpose] at h) hd
      obtain ⟨row, hrow, hmap⟩ := List.mem_filterMap.mp hc
      obtain ⟨m, -, rfl⟩ := Option.map_eq_some_iff.mp hmap
      exact List.mem_map.mpr ⟨row, List.mem_of_mem_filter hrow, rfl⟩

/-- Giving a task up hands nothing over. -/
theorem heeds_handOff {st : PipelineState} : Heeds (heed T) (handOff task st) := by
  refine (heeds_call (c := .bindings) rfl).bind fun bindings => ?_
  refine (Heeds.forEach fun _ => heeds_releaseMode).bind fun _ g => ?_
  refine watched_toldThen (c := .loadTask task.id) (by simp) rfl
    (fun (row : Option TaskRow) w htasks hrow => ?_) fun _ => trivial
  refine Watched.orRaiseThen (fun r hr => ?_) fun _ => trivial
  obtain rfl := hr
  rw [replies_loadTask, World.row, htasks] at hrow
  refine Watched.orRaiseThen (fun p hp => ?_) fun _ => trivial
  exact watched_reassign hrow.symm hp (fun _ hi => nomatch hi) fun _ => Heeds.check.bind fun _ => .pure

theorem heeds_holderWaits {review : Bool} : Heeds (heed T) (holderWaits task review) := by
  unfold holderWaits
  split
  · split
    · exact .pure
    · exact (heeds_call (c := .instance_ _) rfl).bind fun _ => .pure
  · exact .pure

/-- Whoever the task of an assignment is given to was found. -/
theorem heeds_assignTo {st : PipelineState} {role : String} {review : Bool} {members : List Agent}
    {bindings : List BindingRow} : Heeds (heed T) (do
      let decision ← decideInstance task st role review members bindings
      match decision with
      | .assigned instanceId => dispatch task st review instanceId
      | .askForRole _ | .queue .noEligibleReviewer =>
        let _ ← Store.loadTask task.id
        pure ()
      | _ => pure ()) := by
  intro g
  refine watched_decideInstance.bind (fun decision g' hd => ?_) fun _ _ _ => trivial
  split
  · exact watched_dispatch (hd _ rfl)
  · exact ((heeds_call (c := .loadTask _) rfl).bind fun _ => .pure) g'
  · exact ((heeds_call (c := .loadTask _) rfl).bind fun _ => .pure) g'
  · exact trivial

theorem heeds_assign {st : PipelineState} {role : String} {review : Bool} :
    Heeds (heed T) (assign task st role review) := by
  refine (heeds_call (c := .members) rfl).bind fun members => ?_
  have hrest : ∀ task, Heeds (heed T) (do
      let bindings ← Store.bindings
      let waits ← holderWaits task review
      if waits then pure ()
      else
        let decision ← decideInstance task st role review members bindings
        match decision with
        | .assigned instanceId => dispatch task st review instanceId
        | .askForRole _ | .queue .noEligibleReviewer =>
          let _ ← Store.loadTask task.id
          pure ()
        | _ => pure ()) := by
    intro task
    refine (heeds_call (c := .bindings) rfl).bind fun _ => heeds_holderWaits.bind fun _ => ?_
    split
    · exact .pure
    · exact heeds_assignTo
  dsimp only
  split
  · exact heeds_handOff.bind hrest
  · exact Heeds.pure.bind hrest

theorem heeds_execute {blockedAs : String} {raises : Bool} {a : PipelineAction} :
    Heeds (heed T) (execute task blockedAs raises a) := by
  refine (heeds_call (c := .execute _ _) rfl).attempt.bind fun result => ?_
  split
  · exact heeds_note
  · exact .pure
  · split
    · exact .raise
    · exact .pure

theorem heeds_repoAndGit {e e' : Refusal} : Heeds (heed T) (repoAndGit task e e') :=
  heeds_team.bind fun _ => Heeds.check.bind fun _ =>
    (heeds_call (c := .settings) rfl).bind fun _ => .check

theorem heeds_action {st : PipelineState} {a : PipelineAction} :
    Heeds (heed T) (action task st a) := by
  cases a with
  | assignWork | returnToWork => exact heeds_assign
  | requestApproval =>
    rw [action]
    split
    · exact heeds_assign
    · exact .pure
  | submit | merge => exact heeds_repoAndGit.bind fun _ => heeds_execute
  | runCommand => exact heeds_repoAndGit.bind fun _ => Heeds.check.bind fun _ => heeds_execute
  | taskDone | taskCancelled | taskFailed => exact heeds_cleanupTerminal
  | scheduleTimeout | notifyTimeout => exact .pure
  | fanout | cancelFanoutSiblings | reassignStage => exact .raise

theorem heeds_settle {st : PipelineState} {actions : List PipelineAction} :
    Heeds (heed T) (settle task st actions) :=
  (heeds_call (c := .bindings) rfl).bind fun _ =>
    (Heeds.forEach fun _ => heeds_releaseMode).bind fun _ => .forEach fun _ => heeds_action

end Agend.Engine
