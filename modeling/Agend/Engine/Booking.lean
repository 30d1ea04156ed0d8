import Agend.Engine.Startup

/-! Nobody is booked twice, in any state of any run. -/
namespace Agend.Engine

open Agend.Library Agend.Pipeline Agend.Runtime

variable {k : Terms} {w w' : World} {i : String}

/-- A store before its first task, with teams, workflows and instances of any kind. -/
structure Pristine (w : World) : Prop where
  tasks : w.tasks.rows = []
  bindings : w.bindings.rows = []
  messages : w.messages.rows = []
  agents : ∀ a ∈ w.agents.rows, Runtime.validateId a.id = true

theorem Pristine.orderly (h : Pristine w) : Orderly w := by
  have row : ∀ {t r}, w.row t ≠ some r := by
    intro t r hr
    have hmem := (Table.get_eq_some.mp hr).1
    rw [h.tasks] at hmem
    cases hmem
  have binding : ∀ {j b}, w.bindings.get j ≠ some b := by
    intro j b hb
    have hmem := (Table.get_eq_some.mp hb).1
    rw [h.bindings] at hmem
    cases hmem
  refine ⟨⟨fun _ _ _ _ _ hr => absurd hr row, fun _ _ hb => absurd hb binding,
    fun _ _ hb => absurd hb binding, fun _ _ _ _ hb => absurd hb binding⟩,
    fun _ _ hr => absurd hr row, fun _ _ hr => absurd hr row, fun j a ha => ?_,
    fun _ _ hb => absurd hb binding, fun id m hm => ?_⟩
  · obtain ⟨hmem, rfl⟩ := Table.get_eq_some.mp ha
    exact plain_of_validateId (h.agents a hmem)
  · have hmem := (Table.get_eq_some.mp hm).1
    rw [h.messages] at hmem
    cases hmem

/-- Who holds what, as the rows say it. -/
structure Exclusive (w : World) : Prop where
  task : ∀ r ∈ w.tasks.rows, ∀ r' ∈ w.tasks.rows, ∀ i, r.isOpen = true → r'.isOpen = true →
    r.task.assignee = some i → r'.task.assignee = some i → r = r'
  binding : ∀ b ∈ w.bindings.rows, ∀ c ∈ w.bindings.rows, b.instanceId = c.instanceId → b = c
  both : ∀ r ∈ w.tasks.rows, ∀ b ∈ w.bindings.rows, r.isOpen = true →
    r.task.assignee = some b.instanceId → b.task = r.id
  work : ∀ r ∈ w.tasks.rows, ∀ b ∈ w.bindings.rows, b.kind = .work → b.task = r.id →
    r.isOpen = true → r.task.assignee = some b.instanceId
  review : ∀ r ∈ w.tasks.rows, ∀ b ∈ w.bindings.rows, b.kind = .review → b.task = r.id →
    r.task.assignee ≠ some b.instanceId
  worktree : ∀ b ∈ w.bindings.rows, ∀ c ∈ w.bindings.rows, b.worktree = c.worktree → b = c

theorem Booked.exclusive (h : Booked w) : Exclusive w := by
  have row : ∀ {r}, r ∈ w.tasks.rows → w.row r.id = some r := fun hr => Table.get_of_mem hr
  have bind : ∀ {b}, b ∈ w.bindings.rows → w.bindings.get b.instanceId = some b :=
    fun hb => Table.get_of_mem hb
  refine ⟨fun r hr r' hr' i ho ho' ha ha' => ?_, fun b hb c hc he => Table.eq_of_key_eq hb hc he,
    fun r hr b hb ho ha => ?_, fun r hr b hb hk ht ho => ?_, fun r hr b hb hk ht => ?_,
    fun b hb c hc he => ?_⟩
  · have hid := h.holder r.id r'.id r r' i (row hr) (row hr') ho ho' ha ha'
    exact Table.eq_of_key_eq hr hr' hid
  · exact ((h.fits _ b (bind hb)).holder r.id r (row hr) ho ha).symm
  · exact (h.fits _ b (bind hb)).work hk r (by rw [ht]; exact row hr) ho
  · exact (h.fits _ b (bind hb)).review hk r (by rw [ht]; exact row hr)
  · exact Table.eq_of_key_eq hb hc (h.worktree _ _ b c (bind hb) (bind hc) he)

/-- The assignee of no unfinished task, with no binding, as the rows say it. -/
def Idle (w : World) (i : String) : Prop :=
  (∀ r ∈ w.tasks.rows, r.isOpen = true → r.task.assignee ≠ some i) ∧
    ∀ b ∈ w.bindings.rows, b.instanceId ≠ i

theorem Free.idle (h : Free w i) : Idle w i := by
  refine ⟨fun r hr ho ha => h.task r.id r (Table.get_of_mem hr) ho ha, ?_⟩
  rintro b hb rfl
  have hget := Table.get_of_mem hb
  rw [h.binding] at hget
  cases hget

/-- What a step newly gives, it gives to somebody idle: a task, a binding unless it is for the
work of a task held already, and a team or a role unless the instance is new. -/
structure Grants (w w' : World) : Prop where
  task : ∀ r' ∈ w'.tasks.rows, ∀ i, r'.task.assignee = some i →
    (∃ r ∈ w.tasks.rows, r.id = r'.id ∧ r.task.assignee = some i) ∨ Idle w i
  binding : ∀ b' ∈ w'.bindings.rows,
    (∃ b ∈ w.bindings.rows, b.instanceId = b'.instanceId ∧ b.task = b'.task ∧ b.kind = b'.kind) ∨
      Idle w b'.instanceId ∨ b'.kind = .work ∧ ∃ r ∈ w.tasks.rows, r.id = b'.task ∧
        r.isOpen = true ∧ r.task.assignee = some b'.instanceId
  member : ∀ a' ∈ w'.agents.rows,
    (∃ a ∈ w.agents.rows, a.id = a'.id ∧ a.team = a'.team ∧ a.role = a'.role) ∨ Idle w a'.id ∨
      ∀ a ∈ w.agents.rows, a.id ≠ a'.id

theorem Change.grants_task (h : Change w w') {r' : TaskRow} (hr : r' ∈ w'.tasks.rows)
    (ha : r'.task.assignee = some i) :
    (∃ r ∈ w.tasks.rows, r.id = r'.id ∧ r.task.assignee = some i) ∨ Idle w i := by
  rcases h.row (Table.get_of_mem hr) with hold | ⟨r, hr0, hre, -⟩ | ⟨-, -, hn, -⟩
  · exact Or.inl ⟨r', (Table.get_eq_some.mp hold).1, rfl, ha⟩
  · obtain ⟨hmem, hid⟩ := Table.get_eq_some.mp hr0
    by_cases hsame : r.task.assignee = some i
    · exact Or.inl ⟨r, hmem, hid, hsame⟩
    · exact Or.inr (hre.newHolder ha hsame).idle
  · rw [hn] at ha
    cases ha

theorem Change.grants_binding (h : Change w w') {b' : BindingRow} (hb : b' ∈ w'.bindings.rows) :
    (∃ b ∈ w.bindings.rows, b.instanceId = b'.instanceId ∧ b.task = b'.task ∧ b.kind = b'.kind) ∨
      Idle w b'.instanceId ∨ b'.kind = .work ∧ ∃ r ∈ w.tasks.rows, r.id = b'.task ∧
        r.isOpen = true ∧ r.task.assignee = some b'.instanceId := by
  rcases h.binding (Table.get_of_mem hb) with hold | ⟨old, hold, ht, hk, -⟩ |
    ⟨hn, hrow, -, hf, -, -⟩
  · exact Or.inl ⟨b', (Table.get_eq_some.mp hold).1, rfl, rfl, rfl⟩
  · obtain ⟨hmem, hid⟩ := Table.get_eq_some.mp hold
    exact Or.inl ⟨old, hmem, hid, ht.symm, hk.symm⟩
  · obtain ⟨r, hr⟩ := Option.isSome_iff_exists.mp hrow
    obtain ⟨hmem, hid⟩ := Table.get_eq_some.mp hr
    -- Any open task the instance is assigned to is the one of the binding.
    have idle : (r.isOpen = true → r.task.assignee ≠ some b'.instanceId) → Idle w b'.instanceId := by
      intro hno
      refine (Free.mk (fun t r1 hr1 ho ha => ?_) hn).idle
      obtain rfl := hf.holder t r1 hr1 ho ha
      obtain rfl := Option.some.inj (hr.symm.trans hr1)
      exact hno ho ha
    cases hk : b'.kind with
    | review => exact Or.inr (Or.inl (idle fun _ => hf.review hk r hr))
    | work =>
      cases ho : r.isOpen with
      | true => exact Or.inr (Or.inr ⟨rfl, r, hmem, hid, ho, hf.work hk r hr ho⟩)
      | false => exact Or.inr (Or.inl (idle fun hc => by rw [ho] at hc; cases hc))

theorem Change.grants_member (h : Change w w') {a' : Agent} (ha : a' ∈ w'.agents.rows) :
    (∃ a ∈ w.agents.rows, a.id = a'.id ∧ a.team = a'.team ∧ a.role = a'.role) ∨ Idle w a'.id ∨
      ∀ a ∈ w.agents.rows, a.id ≠ a'.id := by
  cases h with
  | joined agent _ hf =>
    rcases Table.mem_put.mp ha with rfl | ⟨hmem, -⟩
    · exact Or.inr (Or.inl hf.idle)
    · exact Or.inl ⟨a', hmem, rfl, rfl, rfl⟩
  | hired agent hn =>
    rcases Table.mem_put.mp ha with rfl | ⟨hmem, -⟩
    · exact Or.inr (Or.inr (Table.get_eq_none.mp hn))
    · exact Or.inl ⟨a', hmem, rfl, rfl, rfl⟩
  | _ => exact Or.inl ⟨a', ha, rfl, rfl, rfl⟩

theorem Change.grants (h : Change w w') : Grants w w' :=
  ⟨fun _ hr _ ha => h.grants_task hr ha, fun _ hb => h.grants_binding hb,
    fun _ ha => h.grants_member ha⟩

variable {h : List (Transition (Process interface) (Signal interface Request) (Trail interface))}
  {p p' : Process interface} {e : Signal interface Request} {o : Trail interface}

/-- Every step of the server is one change of the world. -/
theorem change_of_dutiful (hs : server.advance p e = some (p', o))
    (hd : Server.Dutiful (S := server) k.contract ⟨p, e, p', o⟩) : Change p.world p'.world := by
  obtain ⟨w, phase⟩ := p
  cases e with
  | start =>
    cases phase <;> cases hs
    exact .same
  | serve =>
    cases phase <;> cases hs
    exact .same
  | crash =>
    cases hs
    exact .same
  | finish =>
    cases phase with
    | busy starting rest =>
      cases rest <;> cases hs
      exact .same
    | down => cases hs
    | idle => cases hs
  | answer a =>
    cases phase with
    | busy starting rest =>
      cases rest with
      | call c next =>
        cases hs
        exact hd.1
      | done => cases hs
    | down => cases hs
    | idle => cases hs

/-- Without promises anything may be asked at any time. -/
theorem admits_anything {request : Option Request} :
    (⟨False, False⟩ : Terms).admits w request := by
  cases request with
  | none => exact ⟨fun hf => hf.elim, fun hf => hf.elim⟩
  | some request =>
    cases request with
    | block caller task reason =>
      cases reason with
      | none => exact fun hf => hf.elim
      | some => trivial
    | retry => exact ⟨fun hf => hf.elim, fun hf => hf.elim⟩
    | _ => trivial

/-- A run in which nothing is promised of the environment. -/
theorem covered_of_run (hr : (server.machine Pristine).Run h p) :
    Orderly p.world ∧ ∀ t ∈ h, Orderly t.before.world ∧ Change t.before.world t.after.world := by
  have hmeets : ∀ t ∈ h, Server.Meets (S := server) (Terms.contract ⟨False, False⟩)
      (Terms.admits ⟨False, False⟩) t := by
    rintro ⟨b, e, a, o⟩ -
    unfold Server.Meets
    split
    · exact admits_anything
    · exact admits_anything
    · exact ⟨fun hf => hf.elim, fun hf => hf.elim⟩
    · trivial
  obtain ⟨hc, hall⟩ := (keeps ⟨False, False⟩).run (fun w hw => Pristine.orderly hw) hr hmeets
  refine ⟨hc.safe, fun t ht => ⟨(hall t ht).1.safe, ?_⟩⟩
  exact change_of_dutiful (hr.of_mem t ht).2 (hall t ht).2

/-- Whatever fails, and wherever the daemon crashes, no instance is ever booked twice. -/
theorem never_double_booked (hr : (server.machine Pristine).Run h p) :
    Exclusive p.world ∧ ∀ t ∈ h, Grants t.before.world t.after.world :=
  ⟨(covered_of_run hr).1.booked.exclusive, fun t ht => ((covered_of_run hr).2 t ht).2.grants⟩

/-! A run: a task of two stages is made, and its first stage is dispatched. -/

def twoStages : Workflow where
  id := "two"
  version := 1
  requires := [.repo]
  allowUnreviewed := false
  stages := [.new "a" (.work "dev" "" .branch), .new "b" (.work "dev" "" .branch)]

/-- A team with a repository and one developer. -/
def workshop : World :=
  { World.empty "/d" with
    teams := Table.empty.put ⟨"core", some "repo", "two"⟩
    agents := Table.empty.put ⟨"dev", .claude, "core", "dev", "inbox"⟩
    workflows := Table.empty.put twoStages }

theorem pristine_workshop : Pristine workshop :=
  ⟨rfl, rfl, rfl, by decide +kernel⟩

/-- A request that is served with so many calls, all answered alike. -/
def served (request : Request) (calls : Nat) (a : Answer) : List (Signal interface Request) :=
  .serve request :: List.replicate calls (.answer a) ++ [.finish]

def started (calls : Nat) : List (Signal interface Request) :=
  .start :: List.replicate calls (.answer { yes := true }) ++ [.finish]

def firstDispatch : List (Signal interface Request) :=
  started 18 ++ served (.createTask "x" "dev" "core" none) 27 { text := "head" }

/-- A second task waits; the first is cancelled, but its worktree cannot be given up; the daemon
crashes, and on its next start cleans up and dispatches the second. -/
def secondDispatch : List (Signal interface Request) :=
  firstDispatch ++ served (.createTask "y" "dev" "core" none) 17 { text := "head" } ++
    .serve (.cancel "t-1" none) :: List.replicate 14 (.answer { text := "head" }) ++
    .answer { fault := some "disk full" } :: List.replicate 3 (.answer { text := "head" }) ++
    .crash :: .start :: List.replicate 52 (.answer { text := "head", yes := true }) ++ [.finish]

theorem never_double_booked_workshop :
    let played := server.play [] ⟨workshop, .down⟩ secondDispatch
    (Exclusive played.2.world ∧ ∀ t ∈ played.1, Grants t.before.world t.after.world) ∧
      played.2.world.tasks.rows.map (fun r => (r.task.status, r.task.assignee)) =
        [(.failed, none), (.running, some "dev")] := by
  intro played
  have hr : (server.machine Pristine).Run [] ⟨workshop, .down⟩ := .start ⟨pristine_workshop, rfl⟩
  exact ⟨never_double_booked (Server.run_play hr secondDispatch), by decide +kernel⟩

end Agend.Engine
