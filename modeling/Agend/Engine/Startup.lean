import Agend.Engine.Reconcile

/-! Waking and starting: every active task is asked again for what it has not answered. -/
namespace Agend.Engine

open Agend.Library Agend.Pipeline Agend.Runtime Program

variable {k : Terms} {w w' : World} {r r' : TaskRow} {v : ValidatedWorkflow}
  {st : PipelineState} {id t i : String} {task : Task} {tasks : List Task}
  {A : List PipelineAction}

theorem isOpen_of_isActive (h : isActive task = true) : task.status.isClosed = false := by
  unfold isActive at h
  simp only [Bool.or_eq_true, decide_eq_true_eq] at h
  rcases h with h | h <;> rw [h] <;> rfl

/-- The rows of other tasks are not moved. -/
theorem Only.row_of_ne (h : Only t w w') (hne : id ≠ t) : w'.row id = w.row id := by
  rcases Moves.row h id with he | ⟨heq, -⟩
  · exact he
  · exact absurd heq hne

/-- A routine for one task after the other, each leaving alone what the others rely on. -/
theorem holds_eachTask {f : Task → Routine Unit} {Q : Task → World → Prop}
    (hf : ∀ x s, Calm k s → Q x s →
      Holds (k.contract.within (Only x.id)) (f x) (fun _ s' => Calm k s') s)
    (hQ : ∀ x t s s', x.id ≠ t → Only t s s' → Q x s → Q x s')
    (hn : (tasks.map (·.id)).Nodup) (hc : Calm k w) (h : ∀ x ∈ tasks, Q x w) :
    Holds (k.contract.within anywhere) (forEach f tasks) (fun _ s => Calm k s) w := by
  have hloop := Holds.forEach (C := k.contract.within anywhere) (f := f)
    (P := fun rest s => Calm k s ∧ (rest.map (·.id)).Nodup ∧ ∀ x ∈ rest, Q x s)
    (E := fun _ s => Calm k s) (l := tasks) (s := w) ?_ ⟨hc, hn, h⟩
  · refine hloop.mono fun res s _ hres => ?_
    cases res with
    | ok => exact hres.1
    | error => exact hres
  · rintro x rest s - ⟨hc, hn, hall⟩
    obtain ⟨hx, hrest⟩ := List.nodup_cons.mp hn
    refine ((hf x s hc (hall x List.mem_cons_self)).bounded.wider fun _ _ _ => trivial).mono
      fun res s' _ hres => ?_
    cases res with
    | error => exact hres.1
    | ok =>
      refine ⟨hres.1, hrest, fun y hy => hQ y x.id s s' ?_ hres.2
        (hall y (List.mem_cons_of_mem _ hy))⟩
      intro heq
      exact hx (List.mem_map.mpr ⟨y, hy, heq⟩)

theorem nodup_tasks (p : Task → Bool) :
    (((w.tasks.values.map (·.task)).filter p).map (·.id)).Nodup := by
  have hids : ((w.tasks.values.map (·.task)).map (·.id)).Nodup := by
    rw [List.map_map]
    exact Table.nodup_values
  exact hids.sublist (List.filter_sublist.map _)

/-! Waking. -/

theorem holds_wakeAction {ask : Routine Unit} (hc : Calm k w)
    (hact : Holds (k.contract.within (Only task.id)) ask (fun _ s => Fresher w s) w) :
    Holds (k.contract.within (Only task.id)) (do
      let result ← attempt ask
      match result with
      | .ok () => wakeActions task st []
      | .error _ => failRestore task.id) (fun _ s => Calm k s) w := by
  refine Holds.attemptThen hact fun res s _ hres => ?_
  have hcalm := hc.fresher hres
  split
  · exact Holds.pure hcalm
  · refine (holds_failRestore.bounded.wider fun _ _ h => h.only).mono fun _ s' _ hr => ?_
    exact hcalm.fresher hr.2.fresher

/-- Work that was sent already is not asked for again. -/
theorem holds_wakeActions (hc : Calm k w) (hs : Standing w r v st) (ht : r.task = task)
    (ho : r.isOpen = true) (hb : Batch st A) (hd : ∀ a ∈ A, dispatches a = true) :
    Holds (k.contract.within (Only task.id)) (wakeActions task st A)
      (fun _ s => Calm k s) w := by
  cases A with
  | nil => exact Holds.pure hc
  | cons a rest =>
    have hda := hd a List.mem_cons_self
    have hrun := (hb.live a List.mem_cons_self hda).running
    have hnil : rest = [] := by
      cases rest with
      | nil => rfl
      | cons b _ =>
        have hno := (List.pairwise_cons.mp hb.alone).1 b List.mem_cons_self hda
        rw [hd b (List.mem_cons_of_mem _ List.mem_cons_self)] at hno
        cases hno
    subst hnil
    have hserves := hs.serves ht
    have act : (k.steady → asksForWork a = true → Dispatchable st false → Unambiguous w →
        Repeats w task st) → Holds (k.contract.within (Only task.id)) (action task st a)
          (fun _ s => Fresher w s) w := by
      intro hrep
      have hact := (holds_action_dispatch (k := k) hserves (hb.live a List.mem_cons_self hda) hda
        (hb.work a List.mem_cons_self) hrep fun hp _ => ⟨ho, hc hp _⟩).bounded
      exact (hact.wider fun _ _ h => h.only).mono fun _ _ _ hres => hres.2.2
    refine Holds.of_safe fun hord => ?_
    unfold wakeActions
    by_cases hassigned : task.assignee.isSome = true
    · rw [if_pos hassigned]
      refine holds_readThen (c := .message _) rfl (fun (sent : Option NewMessage) hsent => ?_)
        fun _ _ => hc
      have hsent : sent = w.messages.get (dispatchId (ticket st) false "") :=
        replies_message.mp hsent
      beta_reduce
      split
      · exact Holds.pure hc
      · rename_i hskip
        refine holds_wakeAction hc (act fun _ hasks _ _ => repeats_of_unsent ?_)
        rw [hasks, Bool.and_true, Bool.not_eq_true, Option.isSome_eq_false_iff,
          Option.isNone_iff_eq_none] at hskip
        exact hsent.symm.trans hskip
    · rw [if_neg hassigned]
      have hnone : task.assignee = none := by simpa using hassigned
      exact holds_wakeAction hc (act fun _ _ hdis hu =>
        repeats_of_unsent (unsent_of_unheld hord hu hserves ho hrun hdis hnone))

/-- An open row with the task as it was listed. -/
def Open (x : Task) (w : World) : Prop :=
  ∃ r, w.row x.id = some r ∧ r.task = x ∧ r.isOpen = true

theorem open_of_mem (h : task ∈ (w.tasks.values.map (·.task)).filter isActive) : Open task w := by
  obtain ⟨hmem, hactive⟩ := List.mem_filter.mp h
  obtain ⟨r, hr, rfl⟩ := mem_tasks.mp hmem
  refine ⟨r, hr, rfl, ?_⟩
  rw [TaskRow.isOpen, isOpen_of_isActive hactive]
  rfl

theorem holds_wakeTask (hc : Calm k w) (h : Open task w) :
    Holds (k.contract.within (Only task.id)) (wakeTask task) (fun _ s => Calm k s) w := by
  obtain ⟨r, hr, ht, ho⟩ := h
  refine holds_repoWaits.bind (fun waits s _ hs => ?_) fun _ _ _ hs => hs ▸ hc
  obtain rfl : s = w := hs
  split
  · exact Holds.pure hc
  · refine holds_load.bind (fun l s' _ hx => ?_) fun _ _ _ hs => hs.1 ▸ hc
    obtain ⟨rfl, -, r', v, hl⟩ := hx
    obtain rfl := Option.some.inj (hr.symm.trans hl.row)
    split
    · exact Holds.pure hc
    · exact holds_wakeActions hc hl.standing ht ho
        ((batch_outstandingActions hl.standing.invariant).sublist List.filter_sublist)
        fun a ha => (List.mem_filter.mp ha).2

theorem holds_wake (hc : Calm k w) :
    Holds (k.contract.within anywhere) wake (fun _ s => Calm k s) w := by
  refine holds_readThen (c := .tasks) rfl (fun tasks ht => ?_) fun _ _ => hc
  obtain rfl := replies_tasks.mp ht
  refine ((holds_eachClosed (fun x s hx => holds_cleanupTerminal _ rfl hx)
    shut_values).bounded.wider fun _ _ _ => trivial).bind (fun _ s _ hs => ?_)
    fun _ _ _ hs => hc.fresher hs.2.2
  have hc := hc.fresher hs.2.2
  refine holds_readThen (c := .tasks) rfl (fun tasks ht => ?_) fun _ _ => hc
  obtain rfl := replies_tasks.mp ht
  refine holds_eachTask (Q := Open) (fun x s hc h => holds_wakeTask hc h)
    (fun x t s s' hne honly h => ?_) (nodup_tasks isActive) hc fun x hx => open_of_mem hx
  obtain ⟨r, hr, hrest⟩ := h
  exact ⟨r, (honly.row_of_ne hne).trans hr, hrest⟩

/-! Starting. -/

/-- Only the workflows grow, and the engine looks for git. -/
structure Prepares (w w' : World) : Prop where
  home : w'.home = w.home
  agents : w'.agents = w.agents
  teams : w'.teams = w.teams
  tasks : w'.tasks = w.tasks
  bindings : w'.bindings = w.bindings
  messages : w'.messages = w.messages
  standing : ∀ r v st, Standing w' r v st → Standing w r v st

instance : IsPreorder World Prepares where
  refl _ := ⟨rfl, rfl, rfl, rfl, rfl, rfl, fun _ _ _ h => h⟩
  trans _ _ _ h h' := ⟨h'.home.trans h.home, h'.agents.trans h.agents, h'.teams.trans h.teams,
    h'.tasks.trans h.tasks, h'.bindings.trans h.bindings, h'.messages.trans h.messages,
    fun r v st hs => h.standing r v st (h'.standing r v st hs)⟩

theorem Prepares.row (h : Prepares w w') : w'.row t = w.row t := by
  rw [World.row, World.row, h.tasks]

theorem Prepares.fresher (h : Prepares w w') : Fresher w w' := by
  rintro t ⟨r, v, st, i, b, hs, hid, ho, hb, hrest⟩
  exact ⟨r, v, st, i, b, h.standing r v st hs, hid, ho, h.bindings ▸ hb, hrest⟩

theorem Behind.prepares (hb : Behind w' t) (h : Prepares w w') : Behind w t := by
  obtain ⟨r, v, st, st0, team, i, hs, hid, ho, hrun, ha, hne, hteam, hm⟩ := hb
  refine ⟨r, v, st, st0, team, i, h.standing r v st hs, hid, ho, hrun, ha, hne, h.teams ▸ hteam, ?_⟩
  rw [← h.home, ← h.messages]
  exact hm

theorem holds_saveBuiltin {workflow : Workflow} :
    Holds (k.contract.within Prepares) (saveBuiltin workflow) (fun _ s => s.git = w.git) w := by
  refine holds_latestWorkflow ?_ fun _ => rfl
  split
  · refine holds_write (c := .saveWorkflow workflow) (by simp) (fun ho a => ?_) fun _ _ => rfl
    change Change w (w.write (w.saveWorkflow workflow)).2 ∧
      Prepares w (w.write (w.saveWorkflow workflow)).2 ∧
      (w.write (w.saveWorkflow workflow)).2.git = w.git
    unfold World.saveWorkflow World.write
    split_ifs with hsome
    · exact ⟨.same, refl_of Prepares w, rfl⟩
    · have hnone : w.workflows.get (workflowKey workflow) = none := by simpa using hsome
      exact ⟨.saved workflow hnone, ⟨rfl, rfl, rfl, rfl, rfl, rfl,
        fun r v st hs => standing_of_saved ho hnone hs⟩, rfl⟩
  · exact Holds.pure rfl

/-- What a start needs beyond a safe world. -/
structure Bootable (k : Terms) (w : World) : Prop where
  steady : k.steady → ∀ t r, w.row t = some r → isActive r.task = true → ¬ Behind w t
  prompt : k.prompt → ∀ t r team, Waiting w t → w.row t = some r →
    w.teams.get r.task.teamId = some team → team.repo.isSome = true

/-- Open tasks are loaded, or failed. -/
theorem holds_bootLoad (hx : ∃ r, w.row task.id = some r) :
    Holds (k.contract.within (Eases task.id)) (bootLoad task)
      (After (fun _ s => (∃ r, s.row task.id = some r ∧ r.isOpen = true) → Loadable s task.id)
        fun _ _ => True) w := by
  refine Holds.attemptThen holds_load fun res s _ hres => ?_
  split
  · obtain ⟨rfl, hl, -⟩ := hres
    exact Holds.pure fun _ => hl
  · refine holds_failRestore.mono fun res s' _ hr => ?_
    cases res with
    | error => trivial
    | ok =>
      rintro ⟨r, hr', ho⟩
      have hcl : r.isOpen = false := hr r hr'
      rw [ho] at hcl
      cases hcl

/-- Once open tasks are loaded, every row that is open still loads. -/
theorem holds_bootLoads :
    Holds (k.contract.within Erodes)
      (forEach bootLoad ((w.tasks.values.map (·.task)).filter fun t => !t.status.isClosed))
      (After (fun _ s => ∀ t r, s.row t = some r → r.isOpen = true → Loadable s t)
        fun _ _ => True) w := by
  have hloop := Holds.forEach (C := k.contract.within Erodes) (f := bootLoad)
    (P := fun rest s => Erodes w s ∧ (∀ x ∈ rest, ∃ r, s.row x.id = some r) ∧
      ∀ t r, s.row t = some r → r.isOpen = true → Loadable s t ∨ ∃ x ∈ rest, x.id = t)
    (E := fun _ _ => True)
    (l := (w.tasks.values.map (·.task)).filter fun t => !t.status.isClosed) (s := w) ?_ ?_
  · refine hloop.mono fun res s _ hres => ?_
    cases res with
    | error => trivial
    | ok =>
      intro t r hr ho
      rcases hres.2.2 t r hr ho with hl | ⟨x, hx, -⟩
      · exact hl
      · cases hx
  · rintro x rest s - ⟨he, hrows, hall⟩
    refine ((holds_bootLoad (hrows x List.mem_cons_self)).bounded.wider fun _ _ h =>
      h.erodes).mono fun res s' _ hres => ?_
    cases res with
    | error => trivial
    | ok =>
      have hstep : Erodes s s' := hres.2.erodes
      refine ⟨trans_of Erodes he hstep, fun y hy => ?_, fun t r hr ho => ?_⟩
      · obtain ⟨r, hr⟩ := hrows y (List.mem_cons_of_mem _ hy)
        obtain ⟨r', hr', -⟩ := hstep.1.exists_row hr
        exact ⟨r', hr'⟩
      · obtain ⟨r0, hr0, heased⟩ := hstep.row hr
        rcases hall t r0 hr0 (open_of_ages heased.ages ho) with hl | ⟨y, hy, rfl⟩
        · exact Or.inl (hl.erodes hstep hr ho)
        · rcases List.mem_cons.mp hy with rfl | hy
          · exact Or.inl (hres.1 ⟨r, hr, ho⟩)
          · exact Or.inr ⟨y, hy, rfl⟩
  · refine ⟨refl_of Erodes w, fun x hx => ?_, fun t r hr ho => Or.inr ?_⟩
    · obtain ⟨r, hr, -⟩ := mem_tasks.mp (List.mem_filter.mp hx).1
      exact ⟨r, hr⟩
    · have hid : r.task.id = t := World.id_of_row hr
      refine ⟨r.task, List.mem_filter.mpr ⟨mem_tasks.mpr ⟨r, by rw [hid]; exact hr, rfl⟩, ?_⟩, hid⟩
      simpa [TaskRow.isOpen] using ho

/-- An open task whose sent work names the recorded head. -/
structure Pending (k : Terms) (x : Task) (w : World) : Prop where
  row : Open x w
  steady : k.steady → ¬ Behind w x.id

theorem Pending.resumable (h : Pending k task w) : Resumable k w task.id := by
  obtain ⟨r, hr, -, ho⟩ := h.row
  have no : ∀ {review r' v st}, ¬ Stranded w task.id review r' v st := by
    intro review r' v st hs
    have hrow := hs.standing.row
    rw [hs.id, hr] at hrow
    obtain rfl := Option.some.inj hrow
    have hcl := hs.closed
    rw [ho] at hcl
    cases hcl
  exact ⟨fun hst => ⟨h.steady hst, fun _ _ _ hs => absurd hs no⟩, fun _ _ _ _ => no⟩

theorem holds_resume (hc : Calm k w) (h : Pending k task w) :
    Holds (k.contract.within (Only task.id)) (resume task) (fun _ s => Calm k s) w := by
  refine holds_load.bind (fun l s _ hx => ?_) fun _ _ _ hs => hs.1 ▸ hc
  obtain ⟨rfl, -, r, v, hl⟩ := hx
  obtain ⟨r', hr', ht, hopen⟩ := h.row
  obtain rfl := Option.some.inj (hr'.symm.trans hl.row)
  split
  · refine (holds_commitTransition hl hc (Or.inl hopen)).mono fun res _ _ hres => ?_
    cases res with
    | ok => exact hres.1
    | error => exact hres
  · exact (holds_outstanding hc h.resumable (hl.standing.serves ht) rfl).wider fun _ _ h => h.only

theorem holds_bootTask (hc : Calm k w) (h : Pending k task w) :
    Holds (k.contract.within (Only task.id)) (bootTask task) (fun _ s => Calm k s) w := by
  refine holds_repoWaits.bind (fun waits s _ hs => ?_) fun _ _ _ hs => hs ▸ hc
  obtain rfl : s = w := hs
  split
  · exact Holds.pure hc
  · refine Holds.attemptThen (holds_resume hc h) fun res s' _ hc => ?_
    split
    · exact Holds.pure hc
    · refine holds_readThen (c := .loadTask task.id) rfl (fun (row : Option TaskRow) _ => ?_)
        fun _ _ => hc
      split
      · refine (holds_failRestore.bounded.wider fun _ _ h => h.only).mono fun _ s'' _ hr => ?_
        exact hc.fresher hr.2.fresher
      · exact Holds.pure hc

theorem Pending.only (h : Pending k task w) (hne : task.id ≠ t) (hm : Only t w w') :
    Pending k task w' := by
  obtain ⟨⟨r, hr, hrest⟩, hst⟩ := h
  refine ⟨⟨r, (hm.row_of_ne hne).trans hr, hrest⟩, fun hk hb => hst hk ?_⟩
  exact hb.back hm (fun he => absurd he hne) fun he => absurd he hne

/-- What happens before the tasks are resumed. -/
structure Booting (k : Terms) (w s : World) : Prop where
  prepared : ∃ s0, Prepares w s0 ∧ Erodes s0 s
  git : k.prompt → (∃ t, Waiting w t) → s.git = true

theorem Booting.fresher (h : Booting k w w') : Fresher w w' := by
  obtain ⟨⟨s0, hp, he⟩, -⟩ := h
  exact fun t ht => hp.fresher t (he.2 t ht)

theorem Booting.erodes (h : Booting k w w') {s : World} (he : Erodes w' s) : Booting k w s := by
  obtain ⟨⟨s0, hp, he0⟩, hg⟩ := h
  exact ⟨⟨s0, hp, trans_of Erodes he0 he⟩, fun hk hw => he.1.git.trans (hg hk hw)⟩

theorem Booting.row (h : Booting k w w') (hr : w'.row t = some r') :
    ∃ r, w.row t = some r ∧ Eased r r' := by
  obtain ⟨⟨s0, hp, he⟩, -⟩ := h
  obtain ⟨r, hr0, heased⟩ := he.row hr
  exact ⟨r, hp.row ▸ hr0, heased⟩

theorem Booting.behind (h : Booting k w w') (hb : Behind w' t) : Behind w t := by
  obtain ⟨⟨s0, hp, he⟩, -⟩ := h
  exact (hb.back he.1 (fun _ _ _ heased => ⟨heased.ages, heased.pipeline⟩) fun _ hf => hf).prepares hp

theorem Booting.mendable (h : Booting k w w') (hb : Bootable k w)
    (hl : ∀ t r, w'.row t = some r → r.isOpen = true → Loadable w' t) (hp : k.prompt) :
    ∀ t, Waiting w' t → Mendable w' t := by
  intro t hw
  have hw0 := h.fresher t hw
  obtain ⟨r, v, st, i, b, hs, rfl, ho, -⟩ := id hw
  refine ⟨hl r.id r hs.row ho, h.git hp ⟨_, hw0⟩, fun r' team hr' hteam => ?_⟩
  obtain ⟨r0, hr0, heased⟩ := h.row hr'
  obtain ⟨⟨s0, hp0, he⟩, -⟩ := h
  rw [heased.ages.team, he.1.teams, hp0.teams] at hteam
  exact hb.prompt hp _ r0 team hw0 hr0 hteam

theorem Booting.pending (h : Booting k w w') (hb : Bootable k w)
    (hx : task ∈ (w'.tasks.values.map (·.task)).filter isActive) : Pending k task w' := by
  refine ⟨open_of_mem hx, fun hst hbehind => ?_⟩
  obtain ⟨hmem, hactive⟩ := List.mem_filter.mp hx
  obtain ⟨r, hr, ht, ho⟩ := open_of_mem hx
  obtain ⟨r0, hr0, heased⟩ := h.row hr
  refine hb.steady hst task.id r0 hr0 ?_ (h.behind hbehind)
  rw [← heased.task ho, ht]
  exact hactive

/-- Git is looked for, and the built-in workflows are saved. -/
theorem holds_prepare {f : Unit → Routine Unit} {Q : Except Refusal Unit → World → Prop}
    (ok : ∀ s, Booting k w s → Holds (k.contract.within anywhere) (f ()) Q s)
    (fail : ∀ e s, Q (.error e) s) :
    Holds (k.contract.within anywhere) (do
      Executor.openGit
      forEach saveBuiltin builtins
      f ()) Q w := by
  have hopen : Holds (k.contract.within Prepares) Executor.openGit
      (After (fun _ s => k.prompt → (∃ t, Waiting w t) → s.git = true) fun _ _ => True) w := by
    refine Holds.ask fun _ a ha => ?_
    rcases fault_or_perform w .openGit a with ⟨reason, hf, he⟩ | ⟨hf, he⟩
    · change ((Change w (w.exec .openGit a).2 ∧ _) ∧ Prepares w (w.exec .openGit a).2) ∧
        (_ → After _ _ (w.exec .openGit a).1 (w.exec .openGit a).2)
      rw [he]
      exact ⟨⟨⟨.same, fun m hm => (by cases hm)⟩, refl_of Prepares w⟩, fun _ => trivial⟩
    · change ((Change w (w.exec .openGit a).2 ∧ _) ∧ Prepares w (w.exec .openGit a).2) ∧
        (_ → After _ _ (w.exec .openGit a).1 (w.exec .openGit a).2)
      rw [he]
      refine ⟨⟨⟨.opened a.yes, fun m hm => (by cases hm)⟩, rfl, rfl, rfl, rfl, rfl, rfl,
        fun _ _ _ h => ⟨h.row, h.workflow, h.stored, h.invariant⟩⟩, fun _ hp hw => ?_⟩
      exact (ha.2 hp).2 rfl hw hf
  refine (hopen.bounded.wider fun _ _ _ => trivial).bind (fun _ s _ hs => ?_) fun e s _ _ => fail e s
  obtain ⟨hgit, hprep⟩ := hs
  have hloop := Holds.forEach (C := k.contract.within Prepares) (f := saveBuiltin)
    (P := fun _ s' => s'.git = s.git) (E := fun _ _ => True) (l := builtins) (s := s) ?_ rfl
  · refine (hloop.bounded.wider fun _ _ _ => trivial).bind (fun _ s' _ hs' => ?_)
      fun e s _ _ => fail e s
    refine ok s' ⟨⟨s', trans_of Prepares hprep hs'.2, refl_of Erodes s'⟩, fun hp hw => ?_⟩
    rw [hs'.1]
    exact hgit hp hw
  · intro x rest s' _ heq
    refine holds_saveBuiltin.mono fun res s'' _ hres => ?_
    cases res with
    | error => trivial
    | ok => exact hres.trans heq

/-- A start that goes through leaves nothing obsolete. -/
theorem holds_boot (hb : Bootable k w) :
    Holds (k.contract.within anywhere) boot (After (fun _ s => Calm k s) fun _ _ => True) w := by
  unfold boot
  refine holds_prepare (f := fun _ => _) (Q := After (fun _ s => Calm k s) fun _ _ => True)
    (fun s hboot => ?_) fun _ _ => trivial
  refine holds_readThen (c := .tasks) rfl (fun tasks ht => ?_) fun _ _ => trivial
  obtain rfl := replies_tasks.mp ht
  refine (holds_bootLoads.bounded.wider fun _ _ _ => trivial).bind (fun _ s1 _ hs => ?_)
    fun _ _ _ _ => trivial
  obtain ⟨hl, he⟩ := hs
  have hboot := hboot.erodes he
  refine ((holds_reconcileBindings fun hp => hboot.mendable hb hl hp).bounded.wider
    fun _ _ _ => trivial).bind (fun _ s2 _ hs => ?_) fun _ _ _ _ => trivial
  obtain ⟨hc, he⟩ := hs
  have hboot := hboot.erodes he
  refine holds_readThen (c := .tasks) rfl (fun tasks ht => ?_) fun _ _ => trivial
  obtain rfl := replies_tasks.mp ht
  refine ((holds_eachClosed (fun x s hx => holds_cleanupTerminal _ rfl hx)
    shut_values).bounded.wider fun _ _ _ => trivial).bind (fun _ s3 _ hs => ?_)
    fun _ _ _ _ => trivial
  have hc : Calm k s3 := Calm.fresher hc hs.2.2
  have hboot := hboot.erodes hs.2
  refine holds_readThen (c := .tasks) rfl (fun tasks ht => ?_) fun _ _ => trivial
  obtain rfl := replies_tasks.mp ht
  have htasks := holds_eachTask (k := k) (Q := Pending k) (f := bootTask)
    (fun x s hc h => holds_bootTask hc h) (fun x t s s' hne honly h => h.only hne honly)
    (nodup_tasks isActive) hc fun x hx => hboot.pending hb hx
  refine htasks.mono fun res s' _ hres => ?_
  cases res with
  | ok => exact hres
  | error => trivial

/-! The server. -/

/-- What is promised of a request, or of a start, when it begins. -/
def Terms.admits (k : Terms) (w : World) : Option Request → Prop
  | none => Bootable k w
  | some (.block _ task none) => k.steady → ¬ Behind w task
  | some (.retry task) => Resumable k w task
  | some _ => True

theorem holds_serve {request : Request} (hc : Calm k w) (ha : k.admits w (some request)) :
    Holds (k.contract.within anywhere) (serve request) (fun _ s => Calm k s) w := by
  cases request with
  | done => exact holds_reportDone hc
  | result => exact holds_reportResult hc
  | review => exact holds_review hc
  | block caller task reason =>
    refine holds_block hc fun hst hn => ?_
    subst hn
    exact ha hst
  | createTask => exact holds_createTask hc
  | cancel => exact (holds_event hc).wider fun _ _ h => h.anywhere
  | addTeam => exact holds_addTeam hc
  | joinTeam => exact holds_joinTeam hc
  | setTeamWorkflow => exact holds_setTeamWorkflow hc
  | applyWorkflow => exact holds_applyWorkflow hc
  | operatorReview => exact holds_operatorReview hc
  | acknowledge => exact holds_acknowledge hc
  | retry => exact holds_retry hc ha
  | event => exact (holds_event hc).wider fun _ _ h => h.anywhere
  | checkResult => exact holds_checkResult hc
  | wake => exact holds_wake hc
  | daily => exact holds_daily hc
  | addInstance => exact holds_addInstance hc

/-- The server keeps the contract of any terms. -/
theorem keeps (k : Terms) : server.Keeps k.contract (Calm k) k.admits where
  keep _ _ _ hs _ hd := Orderly.change hd.1 hs
  start _ _ ha := by
    refine (holds_boot ha).unbounded.mono fun res s _ hres hok => ?_
    cases res with
    | ok => exact hres
    | error => cases hok
  serve _ _ _ hc ha := (holds_serve hc ha).unbounded

end Agend.Engine
