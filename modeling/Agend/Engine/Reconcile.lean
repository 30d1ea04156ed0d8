import Agend.Engine.Requests

/-! Every listed binding is compared with its task: what is obsolete or belongs to a closed task
goes, what is current gets its worktree back. -/
namespace Agend.Engine

open Agend.Library Agend.Pipeline Agend.Runtime Program

variable {k : Terms} {w w' w'' : World} {r r' : TaskRow} {v : ValidatedWorkflow}
  {st : PipelineState} {id t i : String} {l : Loaded} {task : Task} {b c : BindingRow}
  {tasks : List Task}

/-- Tasks may close and be annotated, bindings may come and go, and none becomes obsolete. -/
def Erodes (w w' : World) : Prop :=
  Moves (fun _ => True) False Eased (fun _ _ => True) w w' ∧ Fresher w w'

instance : IsPreorder World Erodes where
  refl w := ⟨Moves.refl w, fun _ h => h⟩
  trans _ _ _ h h' := ⟨h.1.trans (fun _ _ _ => Eased.trans) (fun _ _ _ _ _ => trivial) h'.1,
    fun t ht => h.2 t (h'.2 t ht)⟩

theorem Eases.erodes (h : Eases t w w') : Erodes w w' :=
  ⟨Moves.mono (fun _ _ => trivial) (fun h => h) (fun _ _ h => h) (fun _ _ _ => trivial) h, h.fresher⟩

theorem Tidies.erodes (h : Tidies t w w') : Erodes w w' := h.eases.erodes

theorem Drops.erodes (h : Drops t w w') : Erodes w w' := h.tidies.erodes

theorem ClosedAt.erodes (hc : ClosedAt w t) (h : Erodes w w') : ClosedAt w' t :=
  hc.moves h.1 fun _ _ he => he.ages

/-- A row after erosion: open rows keep their task, no row gets an assignee. -/
theorem Erodes.row (h : Erodes w w') (hr : w'.row t = some r') :
    ∃ r, w.row t = some r ∧ Eased r r' := by
  rcases h.1.row_of hr with hold | ⟨-, r, hr0, he⟩
  · exact ⟨r', hold, .refl r', rfl, fun _ => rfl, Or.inl rfl⟩
  · exact ⟨r, hr0, he⟩

theorem Fits.erodes (hf : Fits w b) (h : Erodes w w') : Fits w' b := by
  refine ⟨fun t r' hr ho ha => ?_, fun hk r' hr ho => ?_, fun hk r' hr ha => ?_⟩
  · obtain ⟨r, hr0, he⟩ := h.row hr
    rw [he.task ho] at ha
    exact hf.holder t r hr0 (open_of_ages he.ages ho) ha
  · obtain ⟨r, hr0, he⟩ := h.row hr
    rw [he.task ho]
    exact hf.work hk r hr0 (open_of_ages he.ages ho)
  · obtain ⟨r, hr0, he⟩ := h.row hr
    rcases he.assignee with hsame | hnone
    · exact hf.review hk r hr0 (hsame ▸ ha)
    · rw [hnone] at ha
      cases ha

theorem Suited.erodes (hs : Suited w b) (h : Erodes w w') : Suited w' b := by
  obtain ⟨r, wf, s, role, count, bound, agent, n, hr, hwf, hmem, hst, htk, ha, hrole, hteam⟩ := hs
  obtain ⟨r', hr', hcase⟩ := h.1.exists_row hr
  have hages : Ages r r' := by
    rcases hcase with rfl | he
    · exact .refl r'
    · exact he.ages
  refine ⟨r', wf, s, role, count, bound, agent, n, hr', ?_, hmem, hst, htk, ?_, hrole, ?_⟩
  · rw [hages.workflow, h.1.workflows]
    exact hwf
  · rw [h.1.agents]
    exact ha
  · rw [hages.team]
    exact hteam

/-! What a restart needs to release a binding. -/

theorem restored_isOk {wf : Option Workflow} : (∃ l, restored id r wf = .ok l) ↔
    ∃ workflow snapshot v state, wf = some workflow ∧
      (workflow.id = r.task.workflowId ∧ workflow.version = r.task.workflowVersion ∧
        workflow.requiresRepo = r.task.requiresRepo) ∧ r.pipeline = some snapshot ∧
      validate workflow = .ok v ∧ PipelineState.restore snapshot v = .ok state ∧
      state.taskId = id ∧ (state.branch.all fun branch => taskIdOfBranch branch = some id) = true := by
  constructor
  · rintro ⟨l, h⟩
    unfold restored at h
    obtain ⟨workflow, hwf, h⟩ := bind_eq_ok.mp h
    obtain ⟨_, hcond, h⟩ := bind_eq_ok.mp h
    obtain ⟨progress, hp, h⟩ := bind_eq_ok.mp h
    obtain ⟨snapshot, hs, h⟩ := bind_eq_ok.mp h
    obtain ⟨v, hv, h⟩ := bind_eq_ok.mp h
    obtain ⟨state, hstate, h⟩ := bind_eq_ok.mp h
    obtain ⟨_, hid, h⟩ := bind_eq_ok.mp h
    obtain ⟨_, hbranch, -⟩ := bind_eq_ok.mp h
    refine ⟨workflow, snapshot, v, state, okOr_eq_ok.mp hwf, require_eq_ok.mp hcond, ?_, hv, ?_,
      require_eq_ok.mp hid, require_eq_ok.mp hbranch⟩
    · rw [TaskRow.pipeline, okOr_eq_ok.mp hp]
      exact okOr_eq_ok.mp hs
    · cases hr : PipelineState.restore snapshot v with
      | ok s =>
        rw [hr] at hstate
        exact congrArg Except.ok (Except.ok.inj hstate)
      | error =>
        rw [hr] at hstate
        cases hstate
  · rintro ⟨workflow, snapshot, v, state, rfl, hcond, hp, hv, hr, hid, hbranch⟩
    obtain ⟨progress, hprog, hdata⟩ := Option.bind_eq_some_iff.mp hp
    refine ⟨⟨r.version, r.task, state, progress⟩, ?_⟩
    unfold restored
    refine bind_eq_ok.mpr ⟨workflow, rfl, bind_eq_ok.mpr ⟨(), require_eq_ok.mpr hcond, ?_⟩⟩
    refine bind_eq_ok.mpr ⟨progress, okOr_eq_ok.mpr hprog, ?_⟩
    refine bind_eq_ok.mpr ⟨snapshot, okOr_eq_ok.mpr hdata, bind_eq_ok.mpr ⟨v, hv, ?_⟩⟩
    refine bind_eq_ok.mpr ⟨state, by rw [hr]; rfl, ?_⟩
    exact bind_eq_ok.mpr ⟨(), require_eq_ok.mpr hid,
      bind_eq_ok.mpr ⟨(), require_eq_ok.mpr hbranch, rfl⟩⟩

/-- An open task that loads keeps loading. -/
theorem Loadable.erodes (hl : Loadable w t) (h : Erodes w w') (hr' : w'.row t = some r')
    (ho : r'.isOpen = true) : Loadable w' t := by
  obtain ⟨r0, l, hr0, hl⟩ := hl
  obtain ⟨r, hr, he⟩ := h.row hr'
  obtain rfl := Option.some.inj (hr0.symm.trans hr)
  obtain ⟨workflow, snapshot, v, state, hwf, hcond, hp, hrest⟩ := restored_isOk.mp ⟨l, hl⟩
  obtain ⟨l', hl'⟩ : ∃ l', restored t r' (w'.workflows.get (pinned r'.task)) = .ok l' :=
    restored_isOk.mpr ⟨workflow, snapshot, v, state,
      by rw [he.ages.workflow, h.1.workflows]; exact hwf, by rw [he.task ho]; exact hcond,
      he.pipeline.trans hp, hrest⟩
  exact ⟨r', l', hr', hl'⟩

/-- A restart can release what is obsolete of this task. -/
structure Mendable (w : World) (t : String) : Prop where
  loadable : Loadable w t
  git : w.git = true
  repo : ∀ r team, w.row t = some r → w.teams.get r.task.teamId = some team → team.repo.isSome = true

theorem Mendable.erodes (hm : Mendable w t) (h : Erodes w w') (hr' : w'.row t = some r')
    (ho : r'.isOpen = true) : Mendable w' t := by
  refine ⟨hm.loadable.erodes h hr' ho, h.1.git.trans hm.git, fun r1 team hr1 hteam => ?_⟩
  obtain ⟨r, hr, he⟩ := h.row hr1
  rw [he.ages.team, h.1.teams] at hteam
  exact hm.repo r team hr hteam

/-- A binding of an open task that is to be released. -/
def Due (w : World) (i : String) (b : BindingRow) : Prop :=
  ∃ r v st, Standing w r v st ∧ r.id = b.task ∧ r.isOpen = true ∧ w.bindings.get i = some b ∧
    obsolete st b = true

theorem waiting_iff_due : Waiting w t ↔ ∃ i b, Due w i b ∧ b.task = t := by
  constructor
  · rintro ⟨r, v, st, i, b, hs, hid, ho, hb, ht, hobs⟩
    exact ⟨i, b, ⟨r, v, st, hs, hid.trans ht.symm, ho, hb, hobs⟩, ht⟩
  · rintro ⟨i, b, ⟨r, v, st, hs, hid, ho, hb, hobs⟩, ht⟩
    exact ⟨r, v, st, i, b, hs, hid.trans ht, ho, hb, ht, hobs⟩

theorem Due.waiting (h : Due w i b) : Waiting w b.task :=
  waiting_iff_due.mpr ⟨i, b, h, rfl⟩

theorem Due.instanceId (h : Due w i b) : b.instanceId = i := by
  obtain ⟨r, v, st, -, -, -, hb, -⟩ := h
  exact (Table.get_eq_some.mp hb).2

theorem ClosedAt.not_due (hc : ClosedAt w b.task) : ¬ Due w i b :=
  fun h => hc.not_waiting h.waiting

/-! One binding. -/

/-- A listed binding is stored still, or its task was closed meanwhile. -/
def Stored (w : World) (b : BindingRow) : Prop :=
  w.bindings.get b.instanceId = some b ∨ w.bindings.get b.instanceId = none ∧ ClosedAt w b.task

theorem Stored.eq (h : Stored w b) (hc : w.bindings.get b.instanceId = some c) : c = b := by
  rcases h with h | ⟨h, -⟩
  · exact Option.some.inj (hc.symm.trans h)
  · rw [h] at hc
    cases hc

/-- A listed binding has been dealt with; others go only with their closed task. -/
structure Round (k : Terms) (w : World) (b : BindingRow) (w' : World) : Prop where
  others : ∀ j, j ≠ b.instanceId → w'.bindings.get j = w.bindings.get j ∨
    w'.bindings.get j = none ∧ ∀ c, w.bindings.get j = some c → ClosedAt w' c.task
  due : k.prompt → ∀ c, ¬ Due w' b.instanceId c

theorem round_of_closed (hs : Stored w b) (h : Eases b.task w w') (hc : ClosedAt w' b.task) :
    Round k w b w' := by
  refine ⟨fun j _ => ?_, fun _ c hd => ?_⟩
  · rcases h.binding j with he | ⟨⟨c0, hc0, ht⟩, hn⟩
    · exact Or.inl he
    · refine Or.inr ⟨hn, fun c hc' => ?_⟩
      obtain rfl := Option.some.inj (hc0.symm.trans hc')
      exact ht ▸ hc
  · obtain ⟨r, v, st, -, -, -, hget, -⟩ := id hd
    rcases h.binding b.instanceId with he | ⟨-, hn⟩
    · obtain rfl := hs.eq (he ▸ hget)
      exact hc.not_due hd
    · rw [hn] at hget
      cases hget

theorem round_of_same (hb : w'.bindings = w.bindings) (hd : k.prompt → ∀ c, ¬ Due w' b.instanceId c) :
    Round k w b w' :=
  ⟨fun _ _ => Or.inl (by rw [hb]), hd⟩

theorem round_of_drop : Round k w b (w.drop b.instanceId) := by
  refine ⟨fun j hj => Or.inl ?_, fun _ c hd => ?_⟩
  · rw [World.drop, Table.get_erase, if_neg hj]
  · obtain ⟨r, v, st, -, -, -, hget, -⟩ := hd
    simp only [World.drop, Table.get_erase, if_pos] at hget
    cases hget

/-- The binding of an open task, put back with another status, is what it was. -/
theorem due_of_put {b1 : BindingRow} (hs : Stored w b) (hi : b1.instanceId = b.instanceId)
    (ht : b1.task = b.task) (hk : b1.kind = b.kind) (htk : b1.ticket = b.ticket)
    (hd : Due { w with bindings := w.bindings.put b1 } i c) :
    i ≠ b.instanceId ∧ Due w i c ∨ i = b.instanceId ∧ c = b1 ∧ Due w i b := by
  obtain ⟨r, v, st, hst, hid, ho, hget, hobs⟩ := hd
  have hst' : Standing w r v st := ⟨hst.row, hst.workflow, hst.stored, hst.invariant⟩
  change (w.bindings.put b1).get i = some c at hget
  rw [Table.get_put, hi] at hget
  split_ifs at hget with he
  · obtain rfl := Option.some.inj hget
    have hstored : w.bindings.get b.instanceId = some b := by
      rcases hs with hs | ⟨-, hcl⟩
      · exact hs
      · have hrow := hst'.row
        rw [hid, ht] at hrow
        have hclosed := hcl r hrow
        rw [ho] at hclosed
        cases hclosed
    refine Or.inr ⟨he, rfl, r, v, st, hst', hid.trans ht, ho, he ▸ hstored, ?_⟩
    rw [obsolete, hk, htk, hi] at hobs
    exact hobs
  · exact Or.inl ⟨he, r, v, st, hst', hid, ho, hget, hobs⟩

theorem holds_ensure {repo : String} (hs : Stored w b) (hf : Fits w b)
    (hsu : b.kind = .review → Suited w b) (hfine : k.prompt → ∀ c, ¬ Due w b.instanceId c) :
    Holds (k.contract.within Erodes) (Executor.ensure repo b)
      (After (fun _ s => Round k w b s) fun _ s => s = w) w := by
  refine holds_write (c := .ensure repo b) (by simp) (fun _ a => ?_) fun _ _ => rfl
  change Change w (w.write (w.putBinding { b with status := .ready })).2 ∧
    Erodes w (w.write (w.putBinding { b with status := .ready })).2 ∧
    After _ _ (w.write (w.putBinding { b with status := .ready })).1
      (w.write (w.putBinding { b with status := .ready })).2
  -- What is put back has the ticket, the kind and the task of the listed binding.
  have put : ∀ b1 : BindingRow, b1.instanceId = b.instanceId → b1.task = b.task →
      b1.kind = b.kind → b1.ticket = b.ticket →
      Erodes w { w with bindings := w.bindings.put b1 } ∧
        Round k w b { w with bindings := w.bindings.put b1 } := by
    intro b1 hi ht hk htk
    refine ⟨⟨⟨rfl, rfl, rfl, rfl, rfl, fun _ => Or.inl rfl, fun _ => Or.inl rfl,
      fun _ => Or.inr trivial⟩, fun t hw => ?_⟩, fun j hj => Or.inl ?_, fun hp c hd => ?_⟩
    · obtain ⟨i, c, hd, rfl⟩ := waiting_iff_due.mp hw
      rcases due_of_put hs hi ht hk htk hd with ⟨-, hold⟩ | ⟨-, hc, hold⟩
      · exact hold.waiting
      · rw [hc, ht]
        exact hold.waiting
    · change (w.bindings.put b1).get j = _
      rw [Table.get_put, hi, if_neg hj]
    · rcases due_of_put hs hi ht hk htk hd with ⟨hne, -⟩ | ⟨-, -, hd⟩
      · exact hne rfl
      · exact hfine hp b hd
  have suited : ∀ b1 : BindingRow, b1.instanceId = b.instanceId → b1.task = b.task →
      b1.ticket = b.ticket → b.kind = .review → Suited w b1 := by
    intro b1 hi ht htk hk
    have hsuited := hsu hk
    unfold Suited at hsuited ⊢
    rw [hi, ht, htk]
    exact hsuited
  unfold World.putBinding World.write
  split
  · rename_i w1 hput
    split at hput
    · rename_i old hold
      split_ifs at hput with hsame
      obtain rfl := Except.ok.inj hput
      obtain rfl : old = b := hs.eq hold
      set b1 : BindingRow := { old with status := .ready } with hb1
      obtain ⟨h1, h2⟩ := put b1 rfl rfl rfl rfl
      exact ⟨.rebound b1 hold rfl rfl rfl (suited b1 rfl rfl rfl), h1, h2⟩
    · rename_i hnone
      split_ifs at hput with h1 h2
      obtain rfl := Except.ok.inj hput
      set b1 : BindingRow := { b with status := .ready } with hb1
      obtain ⟨hero, hround⟩ := put b1 rfl rfl rfl rfl
      refine ⟨.bound b1 hnone ?_ ?_ ⟨hf.holder, hf.work, hf.review⟩ (suited b1 rfl rfl rfl), hero,
        hround⟩
      · simp only [Bool.or_eq_true, not_or, Option.isNone_iff_eq_none] at h1
        exact Option.isSome_iff_ne_none.mpr h1.2
      · intro j c hc he
        simp only [List.any_eq_true, decide_eq_true_eq, not_exists, not_and] at h2
        exact h2 c (Table.get_eq_some.mp hc).1 he
  · exact ⟨.same, refl_of Erodes w, rfl⟩

/-- A task is failed, and with it goes the binding. -/
theorem holds_failBinding (hs : Stored w b) (hd : Drops b.task w w') :
    Holds (k.contract.within Erodes) (failRestore b.task)
      (After (fun _ s => Round k w b s ∧ Eases b.task w s ∧ ClosedAt s b.task)
        fun _ _ => True) w' := by
  have hfail := (holds_failRestore (k := k) (t := b.task) (w := w')).bounded
  refine (hfail.wider fun _ _ h => h.erodes).mono fun res s _ hres => ?_
  cases res with
  | error => trivial
  | ok =>
    have heases : Eases b.task w s := trans_of (Eases b.task) hd.tidies.eases hres.2
    exact ⟨round_of_closed hs heases hres.1, heases, hres.1⟩

theorem Stored.task_eq (hs : Stored w b) : ∀ c, w.bindings.get b.instanceId = some c →
    c.task = b.task := fun _ hc => by rw [hs.eq hc]

theorem holds_ensureBinding {repo : String} (hs : Stored w b) (hf : Fits w b)
    (hsu : b.kind = .review → Suited w b) (hfine : k.prompt → ∀ c, ¬ Due w b.instanceId c) :
    Holds (k.contract.within Erodes) (ensureBinding repo b)
      (After (fun _ s => Round k w b s) fun _ _ => True) w := by
  refine Holds.attemptThen (holds_ensure hs hf hsu hfine) fun r s _ hr => ?_
  split
  · exact Holds.pure hr
  · obtain rfl : s = w := hr
    refine (holds_failBinding hs (refl_of (Drops b.task) s)).bind (fun _ s' _ hx => ?_)
      fun _ _ _ _ => trivial
    obtain ⟨-, heases, hclosed⟩ := hx
    have hown : ∀ c, s'.bindings.get b.instanceId = some c → c.task = b.task := by
      intro c hc
      rcases heases.binding b.instanceId with he | ⟨-, hn⟩
      · exact hs.task_eq c (he ▸ hc)
      · rw [hn] at hc
        cases hc
    refine Holds.attemptThen ((holds_releaseMode _ hown).bounded.wider fun _ _ h => h.erodes)
      fun r s'' _ hr => Holds.pure ?_
    have hdrops : Drops b.task s' s'' := hr.2
    exact round_of_closed hs (trans_of (Eases b.task) heases hdrops.tidies.eases)
      (hclosed.tidies hdrops.tidies)

theorem holds_releaseObsolete (hs : Stored w b) :
    Holds (k.contract.within Erodes) (releaseObsolete b)
      (After (fun _ s => Round k w b s) fun _ _ => True) w := by
  refine Holds.attemptThen ((holds_releaseMode _ hs.task_eq).bounded.wider fun _ _ h => h.erodes)
    fun r s _ hr => ?_
  split
  · obtain ⟨hdrop, -⟩ := hr
    obtain rfl : s = _ := hdrop
    exact Holds.pure round_of_drop
  · refine (holds_failBinding hs hr.2).mono fun res s' _ hres => ?_
    cases res with
    | ok => exact hres.1
    | error => trivial

theorem holds_reconcileMerging {repo : String} (hs : Stored w b) (hf : Fits w b)
    (hsu : b.kind = .review → Suited w b) (hfine : k.prompt → ∀ c, ¬ Due w b.instanceId c) :
    Holds (k.contract.within Erodes) (reconcileMerging repo st b)
      (After (fun _ s => Round k w b s) fun _ _ => True) w := by
  refine Holds.attemptThen (Q := fun _ s => s = w) ?_ fun r s _ hr => ?_
  · refine (holds_read (c := .findMerge _ _ _ _) rfl).mono fun r s _ hr => ?_
    cases r with
    | ok => exact hr.1
    | error => exact hr.1
  · obtain rfl : s = w := hr
    split
    · exact Holds.pure (round_of_same rfl hfine)
    · exact holds_ensureBinding hs hf hsu hfine
    · split
      · refine (holds_note.bounded.wider fun _ _ h => h.erodes).mono fun res s' _ hres => ?_
        cases res with
        | error => trivial
        | ok =>
          obtain ⟨hb, hmoves⟩ := hres
          refine round_of_same hb fun hp c hd => ?_
          obtain ⟨r, v, st, hst, hid, ho, hget, hobs⟩ := hd
          obtain ⟨r0, hst0, hid0, hcase⟩ := hst.back hmoves fun _ _ he => ⟨he.ages, he.pipeline⟩
          refine hfine hp c ⟨r0, v, st, hst0, hid0.trans hid, ?_, hb ▸ hget, hobs⟩
          rcases hcase with rfl | he
          · exact ho
          · exact open_of_ages he.ages ho
      · refine (holds_failBinding hs (refl_of (Drops b.task) s)).mono fun res s' _ hres => ?_
        cases res with
        | ok => exact hres.1
        | error => trivial

/-- What is to be released of an open task is found to be obsolete when the task loads. -/
theorem holds_reconcileOpen {repo : String} (hid : task.id = b.task) (hs : Stored w b)
    (hf : Fits w b) (hsu : b.kind = .review → Suited w b)
    (hm : k.prompt → ∀ c, Due w b.instanceId c → Loadable w b.task) :
    Holds (k.contract.within Erodes) (reconcileOpen repo task b)
      (After (fun _ s => Round k w b s) fun _ _ => True) w := by
  refine Holds.attemptThen holds_load fun res s _ hres => ?_
  split
  · obtain ⟨rfl, hload⟩ := hres
    refine holds_ensureBinding hs hf hsu fun hp c hd => ?_
    obtain rfl : c = b := by
      obtain ⟨r, v, st, -, -, -, hget, -⟩ := id hd
      exact hs.eq hget
    rw [hid] at hload
    exact hload hp hd.waiting (hm hp c hd)
  · rename_i l
    obtain ⟨rfl, -, r, v, hl⟩ := hres
    split
    · exact holds_releaseObsolete hs
    · rename_i hobs
      have hfine : k.prompt → ∀ c, ¬ Due s b.instanceId c := by
        rintro - c ⟨r', v', st', hst, hid', -, hget, hobs'⟩
        obtain rfl := hs.eq hget
        have hrow := hst.row
        rw [hid', ← hid, hl.row] at hrow
        obtain rfl := Option.some.inj hrow
        obtain ⟨-, rfl⟩ := hst.unique hl.standing
        exact hobs hobs'
      split
      · exact Holds.pure (round_of_same rfl hfine)
      · split
        · exact holds_reconcileMerging hs hf hsu hfine
        · exact holds_ensureBinding hs hf hsu hfine

/-! All of them. -/

/-- The copy of a task that was listed with a binding. -/
structure ListedTask (w : World) (tasks : List Task) (b : BindingRow) (task : Task) : Prop where
  find : tasks.find? (·.id = b.task) = some task
  id : task.id = b.task
  closed : task.status.isClosed = true → ClosedAt w b.task
  team : ∀ r, w.row b.task = some r → r.task.teamId = task.teamId

theorem holds_reconcileBinding (ht : ListedTask w tasks b task) (hs : Stored w b) (hf : Fits w b)
    (hsu : b.kind = .review → Suited w b)
    (hm : k.prompt → ∀ c, Due w b.instanceId c → Mendable w b.task) :
    Holds (k.contract.within Erodes) (reconcileBinding tasks b)
      (After (fun _ s => Round k w b s) fun _ _ => True) w := by
  unfold reconcileBinding
  rw [ht.find]
  simp only
  split
  · rename_i hclosed
    have hcl := ht.closed hclosed
    have hclean := (holds_cleanupTerminal (k := k) false ht.id fun _ => hcl).bounded
    refine (hclean.wider fun _ _ h => h.erodes).mono fun res s _ hres => ?_
    cases res with
    | error => trivial
    | ok => exact round_of_closed hs hres.2.eases (hcl.tidies hres.2)
  · refine holds_team.bind (fun x s _ hx => ?_) fun _ _ _ _ => trivial
    obtain ⟨rfl, hteam⟩ := hx
    refine holds_readThen (c := .settings) rfl (fun (me : Settings) hme => ?_) fun _ _ => trivial
    obtain rfl := replies_settings.mp hme
    split
    · exact holds_reconcileOpen ht.id hs hf hsu fun hp c hd => (hm hp c hd).loadable
    · rename_i hnone
      refine Holds.pure (round_of_same rfl fun hp c hd => ?_)
      have hmend := hm hp c hd
      obtain ⟨r, v, st, hst, hid, -, hget, -⟩ := hd
      obtain rfl := hs.eq hget
      have hrow : s.row c.task = some r := hid ▸ hst.row
      have hrepo := hmend.repo r x hrow (by rw [ht.team r hrow]; exact hteam)
      obtain ⟨repo, hrepo⟩ := Option.isSome_iff_exists.mp hrepo
      rw [hrepo, hmend.git] at hnone
      simp at hnone

/-- Where the loop over the listed bindings stands. -/
structure Reconciling (k : Terms) (w : World) (rest : List BindingRow) (s : World) : Prop where
  erodes : Erodes w s
  nodup : (rest.map (·.instanceId)).Nodup
  stored : ∀ b ∈ rest, Stored s b
  listed : ∀ b ∈ rest, w.bindings.get b.instanceId = some b
  due : k.prompt → ∀ i c, Due s i c → c ∈ rest
  mendable : k.prompt → ∀ t, Waiting s t → Mendable s t

theorem Due.back (hd : Due w' i c) (h : Erodes w w')
    (hget : w'.bindings.get i = w.bindings.get i) : Due w i c := by
  obtain ⟨r', v, st, hst, hid, ho, hc, hobs⟩ := hd
  obtain ⟨r, hst0, hid0, hcase⟩ := hst.back h.1 fun _ _ he => ⟨he.ages, he.pipeline⟩
  refine ⟨r, v, st, hst0, hid0.trans hid, ?_, hget ▸ hc, hobs⟩
  rcases hcase with rfl | he
  · exact ho
  · exact open_of_ages he.ages ho

theorem Reconciling.next {rest : List BindingRow} (h : Reconciling k w (b :: rest) w')
    (hr : Round k w' b w'') (he : Erodes w' w'') : Reconciling k w rest w'' := by
  obtain ⟨hb, hnodup⟩ := List.nodup_cons.mp h.nodup
  have ne : ∀ c ∈ rest, c.instanceId ≠ b.instanceId := by
    intro c hc heq
    exact hb (List.mem_map.mpr ⟨c, hc, heq⟩)
  -- A binding that is due afterwards was due before, and is not the one dealt with.
  have hback : k.prompt → ∀ i c, Due w'' i c → Due w' i c ∧ i ≠ b.instanceId := by
    intro hp i c hd
    have hi : i ≠ b.instanceId := by
      rintro rfl
      exact hr.due hp c hd
    rcases hr.others i hi with heq | ⟨hn, -⟩
    · exact ⟨hd.back he heq, hi⟩
    · obtain ⟨-, -, -, -, -, -, hget, -⟩ := hd
      rw [hn] at hget
      cases hget
  refine ⟨trans_of Erodes h.erodes he, hnodup, fun c hc => ?_,
    fun c hc => h.listed c (List.mem_cons_of_mem _ hc), fun hp i c hd => ?_, fun hp t hw => ?_⟩
  · rcases h.stored c (List.mem_cons_of_mem _ hc) with hst | ⟨hn, hcl⟩
    · rcases hr.others _ (ne c hc) with heq | ⟨hn, hall⟩
      · exact Or.inl (heq.trans hst)
      · exact Or.inr ⟨hn, hall c hst⟩
    · rcases hr.others _ (ne c hc) with heq | ⟨hn', -⟩
      · exact Or.inr ⟨heq.trans hn, hcl.erodes he⟩
      · exact Or.inr ⟨hn', hcl.erodes he⟩
  · obtain ⟨hd, hi⟩ := hback hp i c hd
    rcases List.mem_cons.mp (h.due hp i c hd) with rfl | hmem
    · exact absurd hd.instanceId.symm hi
    · exact hmem
  · obtain ⟨i, c, hd, rfl⟩ := waiting_iff_due.mp hw
    obtain ⟨hd', -⟩ := hback hp i c hd
    obtain ⟨r, v, st, hst, hid, ho, -, -⟩ := hd
    exact (h.mendable hp c.task hd'.waiting).erodes he (hid ▸ hst.row) ho

theorem Reconciling.start (hm : k.prompt → ∀ t, Waiting w t → Mendable w t) :
    Reconciling k w w.bindings.values w := by
  have hget : ∀ b ∈ w.bindings.values, w.bindings.get b.instanceId = some b :=
    fun b hb => Table.get_of_mem (Table.mem_values.mp hb)
  refine ⟨refl_of Erodes w, Table.nodup_values, fun b hb => Or.inl (hget b hb), hget,
    fun _ i c hd => ?_, hm⟩
  obtain ⟨-, -, -, -, -, -, hc, -⟩ := hd
  exact Table.mem_values.mpr (Table.get_eq_some.mp hc).1

/-- The listed copy of the task of a listed binding. -/
theorem exists_listedTask (ho : Orderly w) (he : Erodes w w')
    (hb : w.bindings.get b.instanceId = some b) :
    ∃ task, ListedTask w' (w.tasks.values.map (·.task)) b task := by
  obtain ⟨r, hr⟩ := Option.isSome_iff_exists.mp (ho.booked.task _ b hb)
  have hid : r.task.id = b.task := World.id_of_row hr
  obtain ⟨task, hfind⟩ : ∃ task, (w.tasks.values.map (·.task)).find? (·.id = b.task) = some task := by
    rw [← Option.isSome_iff_exists, List.find?_isSome]
    exact ⟨r.task, mem_tasks.mpr ⟨r, by rw [hid]; exact hr, rfl⟩, by simpa using hid⟩
  have hcond := List.find?_some hfind
  have htid : task.id = b.task := of_decide_eq_true hcond
  obtain ⟨r1, hr1, rfl⟩ := mem_tasks.mp (List.mem_of_find?_eq_some hfind)
  rw [htid, hr] at hr1
  obtain rfl := Option.some.inj hr1
  refine ⟨r.task, hfind, hid, fun hcl r' hr' => ?_, fun r' hr' => ?_⟩
  · obtain ⟨r0, hr0, heased⟩ := he.row hr'
    obtain rfl := Option.some.inj (hr.symm.trans hr0)
    refine heased.ages.closed ?_
    rw [TaskRow.isOpen, hcl]
    rfl
  · obtain ⟨r0, hr0, heased⟩ := he.row hr'
    obtain rfl := Option.some.inj (hr.symm.trans hr0)
    exact heased.ages.team

/-- Listed tasks that are closed stay closed. -/
def Shut (w : World) (tasks : List Task) : Prop :=
  ∀ x ∈ tasks, x.status.isClosed = true → ClosedAt w x.id

theorem shut_values : Shut w (w.tasks.values.map (·.task)) := by
  intro x hx hcl r hr
  obtain ⟨r0, hr0, rfl⟩ := mem_tasks.mp hx
  obtain rfl := Option.some.inj (hr0.symm.trans hr)
  rw [TaskRow.isOpen, hcl]
  rfl

theorem Shut.erodes (h : Shut w tasks) (he : Erodes w w') : Shut w' tasks :=
  fun x hx hcl => (h x hx hcl).erodes he

theorem Shut.tail (h : Shut w (task :: tasks)) : Shut w tasks :=
  fun x hx => h x (List.mem_cons_of_mem _ hx)

/-- A routine for closed tasks, one after the other. -/
theorem holds_eachClosed {f : Task → Routine Unit}
    (hf : ∀ x s, (x.status.isClosed = true → ClosedAt s x.id) →
      Holds (k.contract.within (Tidies x.id)) (f x) (fun _ _ => True) s) (h : Shut w tasks) :
    Holds (k.contract.within Erodes) (forEach f tasks) (fun _ _ => True) w := by
  have hloop := Holds.forEach (C := k.contract.within Erodes) (f := f)
    (P := fun rest s => Shut s rest) (E := fun _ _ => True) (l := tasks) (s := w) ?_ h
  · exact hloop.mono fun _ _ _ _ => trivial
  · intro x rest s _ hshut
    have hx := (hf x s (hshut x List.mem_cons_self)).bounded
    refine (hx.wider fun _ _ h => h.erodes).mono fun res s' _ hres => ?_
    cases res with
    | error => trivial
    | ok => exact hshut.tail.erodes hres.2.erodes

theorem holds_freeClosed {bindings : List BindingRow}
    (hc : task.status.isClosed = true → ClosedAt w task.id) :
    Holds (k.contract.within (Tidies task.id)) (freeClosed bindings task) (fun _ _ => True) w := by
  unfold freeClosed
  split
  · rename_i hcond
    simp only [Bool.and_eq_true] at hcond
    have hclosed := hc hcond.1.1
    refine holds_readThen (c := .loadTask task.id) rfl (fun row hrow => ?_) fun _ _ => trivial
    obtain rfl := replies_loadTask.mp hrow
    refine Holds.orRaiseThen (fun (r : TaskRow) hr => ?_) fun _ => trivial
    refine (holds_freed hr (hclosed r hr)).bind (fun written s _ _ => ?_) fun _ _ _ _ => trivial
    exact Holds.check (fun _ => trivial) fun _ => trivial
  · exact Holds.pure trivial

/-- After the bindings are reconciled nothing obsolete is left, and nothing new is left if this
fails. -/
theorem holds_reconcileBindings (hm : k.prompt → ∀ t, Waiting w t → Mendable w t) :
    Holds (k.contract.within Erodes) reconcileBindings
      (After (fun _ s => Calm k s) fun _ _ => True) w := by
  refine Holds.of_safe fun ho => ?_
  refine holds_readThen (c := .tasks) rfl (fun tasks ht => ?_) fun _ _ => trivial
  obtain rfl := replies_tasks.mp ht
  refine holds_readThen (c := .bindings) rfl (fun bindings hb => ?_) fun _ _ => trivial
  obtain rfl := replies_bindings.mp hb
  refine Holds.forEachThen (P := Reconciling k w) (E := fun _ _ => True) ?_ (Reconciling.start hm)
    ?_ fun _ _ _ => trivial
  · intro b rest s _ hrec
    have hlisted := hrec.listed b List.mem_cons_self
    obtain ⟨task, htask⟩ := exists_listedTask ho hrec.erodes hlisted
    have hround := holds_reconcileBinding (k := k) htask (hrec.stored b List.mem_cons_self)
      ((ho.booked.fits _ b hlisted).erodes hrec.erodes)
      (fun hk => (ho.suited _ b hlisted hk).erodes hrec.erodes) fun hp c hd => by
        have hcb := (hrec.stored b List.mem_cons_self).eq (by
          obtain ⟨-, -, -, -, -, -, hget, -⟩ := hd
          exact hget)
        rw [← hcb]
        exact hrec.mendable hp c.task hd.waiting
    refine hround.bounded.mono fun res s' _ hres => ?_
    cases res with
    | error => trivial
    | ok => exact hrec.next hres.1 hres.2
  · intro s _ hrec
    have hcalm : Calm k s := by
      intro hp t hw
      obtain ⟨i, c, hd, -⟩ := waiting_iff_due.mp hw
      have hmem := hrec.due hp i c hd
      cases hmem
    refine holds_readThen (c := .members) rfl (fun _ _ => ?_) fun _ _ => trivial
    refine holds_readThen (c := .bindings) rfl (fun _ _ => ?_) fun _ _ => trivial
    refine (holds_eachClosed (fun x s' hx => holds_freeClosed hx)
      (shut_values.erodes hrec.erodes)).bounded.bind (fun _ s' _ hs => ?_) fun _ _ _ _ => trivial
    have hcalm' := hcalm.fresher hs.2.2
    refine holds_readThen (c := .teams) rfl (fun _ _ => ?_) fun _ _ => trivial
    refine (holds_read (c := .housekeeping) rfl).mono fun res s'' _ hres => ?_
    cases res with
    | error => trivial
    | ok =>
      obtain ⟨rfl, -⟩ := hres
      exact hcalm'

theorem holds_daily (hc : Calm k w) :
    Holds (k.contract.within anywhere) reconcileBindings (fun _ s => Calm k s) w := by
  refine ((holds_reconcileBindings fun hp t hw => absurd hw (hc hp t)).bounded.wider
    fun _ _ _ => trivial).mono fun _ s _ hres => ?_
  exact hc.fresher hres.2.2

end Agend.Engine
