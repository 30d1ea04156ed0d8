import Agend.Engine.Terms

/-! Giving bindings up and closing tasks: what each of these routines moves. -/
namespace Agend.Engine

open Agend.Library Agend.Pipeline Agend.Runtime Program

variable {k : Terms} {R : World → World → Prop} [IsPreorder World R] {w : World} {t : String}
  {r : TaskRow} {b : BindingRow}

/-- A call that writes: what it does when it goes through is a change within bounds. -/
theorem holds_write {c : Call} (hc : ∀ m, c ≠ .claimMessage m)
    {Q : Except Refusal c.Reply → World → Prop}
    (h : Orderly w → ∀ a, Change w (w.perform a c).2 ∧ R w (w.perform a c).2 ∧
      Q (w.perform a c).1 (w.perform a c).2)
    (fail : ∀ e, (k.prompt → ∀ t, Waiting w t → ¬ c.Settles t) → Q (.error e) w) :
    Holds (k.contract.within R) (call c) Q w := by
  refine Holds.ask fun hs a ha => ?_
  rcases fault_or_perform w c a with ⟨reason, hf, he⟩ | ⟨hf, he⟩
  · change ((Change w (w.exec c a).2 ∧ _) ∧ R w (w.exec c a).2) ∧ (_ → Q (w.exec c a).1 (w.exec c a).2)
    rw [he]
    refine ⟨⟨⟨.same, fun m hm => absurd hm (hc m)⟩, refl_of R w⟩, fun _ => fail _ fun hp t ht hst => ?_⟩
    have := (ha.2 hp).1 t ht hst
    rw [hf] at this
    cases this
  · change ((Change w (w.exec c a).2 ∧ _) ∧ R w (w.exec c a).2) ∧ (_ → Q (w.exec c a).1 (w.exec c a).2)
    rw [he]
    obtain ⟨h1, h2, h3⟩ := h hs a
    exact ⟨⟨⟨h1, fun m hm => absurd hm (hc m)⟩, h2⟩, fun _ => h3⟩

theorem drops_drop {i : String} (hb : ∀ c, w.bindings.get i = some c → c.task = t) :
    Drops t w (w.drop i) := by
  refine ⟨rfl, rfl, rfl, rfl, rfl, fun _ => Or.inl rfl, fun _ => Or.inl rfl, fun j => ?_⟩
  simp only [World.drop, Table.get_erase]
  split_ifs with hj
  · subst hj
    cases hc : w.bindings.get j with
    | none => exact Or.inl rfl
    | some c => exact Or.inr ⟨⟨c, rfl, hb c hc⟩, rfl⟩
  · exact Or.inl rfl

theorem holds_team {id : String} : Holds (k.contract.within R) (team id)
    (After (fun x s => s = w ∧ w.teams.get id = some x) fun _ s => s = w) w := by
  refine holds_readThen (c := .teams) rfl (fun teams ht => ?_) fun _ _ => rfl
  obtain rfl := replies_teams.mp ht
  refine Holds.orRaise (fun x hx => ⟨rfl, ?_⟩) fun _ => rfl
  have hid := List.find?_some hx
  exact Table.get_eq_some.mpr
    ⟨Table.mem_values.mp (List.mem_of_find?_eq_some hx), of_decide_eq_true hid⟩

theorem holds_drop {c : Call} {i : String} (hc : ∀ m, c ≠ .claimMessage m)
    (hw : ∀ a, (w.perform a c).2 = w.drop i ∧ ∃ x, (w.perform a c).1 = .ok x)
    (hb : ∀ c, w.bindings.get i = some c → c.task = t) :
    Holds (k.contract.within (Drops t)) (call c)
      (After (fun _ s => s = w.drop i) fun _ _ => True) w := by
  refine holds_write hc (fun _ a => ?_) fun _ _ => trivial
  obtain ⟨h2, x, h1⟩ := hw a
  rw [h2, h1]
  exact ⟨.dropped i, drops_drop hb, rfl⟩

/-- A binding that is given up is gone. -/
theorem holds_releaseMode (mode : BindingRelease)
    (hb : ∀ c, w.bindings.get b.instanceId = some c → c.task = t) :
    Holds (k.contract.within (Drops t)) (releaseMode b mode)
      (After (fun _ s => s = w.drop b.instanceId) fun _ _ => True) w := by
  refine holds_readThen (c := .loadTask b.task) rfl (fun row _ => ?_) fun _ _ => trivial
  refine Holds.orRaiseThen (fun row _ => ?_) fun _ => trivial
  refine holds_team.bind (fun x s _ hx => ?_) fun _ _ _ _ => trivial
  obtain ⟨rfl, -⟩ := hx
  split
  · rename_i repo _
    refine holds_readThen (c := .settings) rfl (fun me _ => ?_) fun _ _ => trivial
    refine Holds.checkThen (fun _ => ?_) fun _ => trivial
    have hdrop := holds_drop (k := k) (c := .release repo b mode) (by simp)
      (fun a => ⟨rfl, _, rfl⟩) hb
    refine hdrop.bind (fun patch s' _ hs => ?_) fun _ _ _ _ => trivial
    obtain rfl : s' = _ := hs
    split
    · refine (holds_read (c := .appendEvent _ _) rfl).mono fun r s' _ hr => ?_
      cases r with
      | ok => exact hr.1
      | error => trivial
    · exact Holds.pure rfl
  · exact holds_drop (by simp) (fun a => ⟨rfl, _, rfl⟩) hb

theorem moves_putRow {S : Prop} {E : TaskRow → TaskRow → Prop}
    {B : Option BindingRow → Option BindingRow → Prop} {r' : TaskRow} (hr : w.row t = some r)
    (hid : r'.task.id = r.task.id) (h : E r r') : Moves (· = t) S E B w (w.putRow r') := by
  have hid' : r'.id = t := hid.trans (World.id_of_row hr)
  refine ⟨rfl, rfl, rfl, rfl, rfl, fun _ => Or.inl rfl, fun t' => ?_, fun _ => Or.inl rfl⟩
  rw [World.row_putRow, hid']
  split_ifs with ht
  · exact Or.inr ⟨ht, r, r', by rw [ht]; exact hr, rfl, h⟩
  · exact Or.inl rfl

theorem tidies_putRow {r' : TaskRow} (hr : w.row t = some r) (h : Tidied r r') :
    Tidies t w (w.putRow r') :=
  moves_putRow hr h.ages.id h

theorem eases_putRow {r' : TaskRow} (hr : w.row t = some r) (h : Eased r r') :
    Eases t w (w.putRow r') :=
  moves_putRow hr h.ages.id h

theorem only_putRow {r' : TaskRow} (hr : w.row t = some r) (h : Ages r r') :
    Only t w (w.putRow r') :=
  moves_putRow hr h.id h

theorem tidied_of_task {r' : TaskRow} (ht : r'.task = r.task) (hp : r'.pipeline = r.pipeline) :
    Tidied r r' :=
  ⟨⟨by rw [ht], by rw [ht], by rw [ht], by rw [ht], by simp [TaskRow.isOpen, ht]⟩, hp, by rw [ht],
    fun _ => ht, Or.inl (by rw [ht])⟩

/-- A note changes neither the task nor its pipeline. -/
theorem holds_taskNote {block attention : Option String} {ack : Bool} :
    Holds (k.contract.within (Tidies t)) (Store.taskNote t block attention ack)
      (fun _ s => s.bindings = w.bindings) w := by
  refine holds_write (c := .taskNote t block attention ack) (by simp) (fun _ a => ?_)
    fun _ _ => rfl
  change Change w (w.note t block attention ack) ∧ Tidies t w (w.note t block attention ack) ∧
    (w.note t block attention ack).bindings = w.bindings
  unfold World.note
  cases hr : w.row t with
  | none => exact ⟨.same, refl_of (Tidies t) w, rfl⟩
  | some r =>
    have hid := World.id_of_row hr
    set noted : TaskRow := { r with progress := r.progress.map fun p =>
        ⟨{ p.data with blockReason := block }, attention, ack⟩ } with hnoted
    have hp : noted.pipeline = r.pipeline := by
      rw [hnoted, TaskRow.pipeline, TaskRow.pipeline]
      cases r.progress <;> rfl
    have ht : noted.task = r.task := rfl
    exact ⟨.wrote (by rw [hid]; exact hr) (.noted ht hp), tidies_putRow hr (tidied_of_task ht hp),
      rfl⟩

theorem holds_note {reason : Option String} :
    Holds (k.contract.within (Tidies t)) (note t reason) (fun _ s => s.bindings = w.bindings) w := by
  refine holds_readThen (c := .loadTask t) rfl (fun row _ => ?_) fun _ _ => rfl
  exact Holds.orRaiseThen (fun p _ => holds_taskNote) fun _ => rfl

theorem holds_cleanupRemote {task : Task} (ht : task.id = t) :
    Holds (k.contract.within (Tidies t)) (cleanupRemote task) (fun _ _ => True) w := by
  refine holds_team.bind (fun x s _ hx => ?_) fun _ _ _ _ => trivial
  obtain ⟨rfl, -⟩ := hx
  split
  · exact Holds.pure trivial
  · refine Holds.attemptThen (holds_read (c := .cleanupRemote _ _ _) rfl) fun r s' _ _ => ?_
    split
    · exact Holds.pure trivial
    · subst ht
      exact holds_note.mono fun _ _ _ _ => trivial

/-! Writes that expect the version they read. -/

/-- A row that was just read is the one that is replaced. -/
theorem advance_eq {task : Task} {data : TaskProgress} {clear : Bool} (hr : w.row task.id = some r) :
    ∃ progress : Progress, progress.data = data ∧
      w.advance task r.version data clear =
        (true, w.putRow ⟨task, r.version + 1, some progress⟩) := by
  unfold World.advance
  rw [hr]
  simp only [if_pos]
  exact ⟨_, rfl, rfl⟩

theorem holds_advanceTask {task : Task} {data : TaskProgress} (event : String)
    (hr : w.row task.id = some r)
    (hc : ∀ progress : Progress, progress.data = data →
      Rewrite w r ⟨task, r.version + 1, some progress⟩)
    (hb : ∀ progress : Progress, progress.data = data →
      R w (w.putRow ⟨task, r.version + 1, some progress⟩)) :
    Holds (k.contract.within R) (Store.advanceTask task r.version data event)
      (After (fun x s => x = true ∧ ∃ progress : Progress, progress.data = data ∧
          s = w.putRow ⟨task, r.version + 1, some progress⟩)
        fun _ s => s = w ∧ (k.prompt → ¬ Waiting w task.id)) w := by
  refine holds_write (c := .advanceTask task r.version data event) (by simp) (fun _ a => ?_)
    fun _ hu => ⟨rfl, fun hp ht => hu hp _ ht rfl⟩
  obtain ⟨progress, hd, he⟩ := advance_eq hr
  have hperform : w.perform a (.advanceTask task r.version data event) =
      (.ok true, w.putRow ⟨task, r.version + 1, some progress⟩) := by
    change ((.ok (w.advance task r.version data false).1 : Except Refusal Bool),
      (w.advance task r.version data false).2) = _
    rw [he]
    rfl
  rw [hperform]
  have hid : r.id = task.id := World.id_of_row hr
  exact ⟨.wrote (by rw [hid]; exact hr) (hc progress hd), hb progress hd, rfl, progress, hd, rfl⟩

theorem holds_compareAndSwap {task : Task} (hr : w.row task.id = some r)
    (hc : Rewrite w r { r with task := task, version := r.version + 1 })
    (hb : R w (w.putRow { r with task := task, version := r.version + 1 })) :
    Holds (k.contract.within R) (Store.compareAndSwapTask task r.version) (fun _ _ => True) w := by
  refine holds_write (c := .compareAndSwapTask task r.version) (by simp) (fun _ a => ?_)
    fun _ _ => trivial
  have he : w.compareAndSwap task r.version =
      (true, w.putRow { r with task := task, version := r.version + 1 }) := by
    unfold World.compareAndSwap
    rw [hr]
    simp only [if_pos]
  change Change w (w.compareAndSwap task r.version).2 ∧ R w (w.compareAndSwap task r.version).2 ∧ True
  rw [he]
  have hid : r.id = task.id := World.id_of_row hr
  exact ⟨.wrote (by rw [hid]; exact hr) hc, hb, trivial⟩

/-! The cleanup of a closed task. -/

def ClosedAt (w : World) (t : String) : Prop := ∀ r, w.row t = some r → r.isOpen = false

theorem ClosedAt.moves {T : String → Prop} {S : Prop} {E : TaskRow → TaskRow → Prop}
    {B : Option BindingRow → Option BindingRow → Prop} {w' : World} (hc : ClosedAt w t)
    (h : Moves T S E B w w') (hE : ∀ r r', E r r' → Ages r r') : ClosedAt w' t := by
  intro r' hr'
  rcases h.row_of hr' with hr | ⟨-, r, hr, he⟩
  · exact hc r' hr
  · exact (hE r r' he).closed (hc r hr)

theorem ClosedAt.tidies {w' : World} {t' : String} (hc : ClosedAt w t) (h : Tidies t' w w') :
    ClosedAt w' t := hc.moves h fun _ _ he => he.ages

theorem ClosedAt.not_waiting (hc : ClosedAt w t) : ¬ Waiting w t := by
  rintro ⟨r, v, st, i, b, hs, rfl, ho, -⟩
  have := hc r hs.row
  rw [ho] at this
  cases this

theorem holds_releaseOrDefer (merged report : Bool)
    (hb : ∀ c, w.bindings.get b.instanceId = some c → c.task = t) :
    Holds (k.contract.within (Drops t)) (releaseOrDefer merged report b) (fun _ _ => True) w := by
  refine Holds.attemptThen (holds_releaseMode _ hb) fun r s' _ _ => ?_
  split
  · exact Holds.pure trivial
  · split
    · exact Holds.raise trivial
    · exact Holds.pure trivial

/-- Bindings listed for a task name no other task's, however many of them are gone. -/
def Listed (w : World) (t : String) (l : List BindingRow) : Prop :=
  ∀ b ∈ l, ∀ c, w.bindings.get b.instanceId = some c → c.task = t

theorem listed_values (p : BindingRow → Bool) :
    Listed w t (w.bindings.values.filter fun b => decide (b.task = t) && p b) := by
  intro b hb c hc
  obtain ⟨hmem, hp⟩ := List.mem_filter.mp hb
  rw [Table.get_of_mem (Table.mem_values.mp hmem)] at hc
  obtain rfl := Option.some.inj hc
  simp only [Bool.and_eq_true, decide_eq_true_eq] at hp
  exact hp.1

theorem Listed.moves {T : String → Prop} {S : Prop} {E : TaskRow → TaskRow → Prop} {w' : World}
    {l : List BindingRow} (hl : Listed w t l) (h : Moves T S E (Dropped T) w w') :
    Listed w' t l := by
  intro b hb c hc
  rcases h.binding b.instanceId with he | ⟨-, hn⟩
  · exact hl b hb c (he ▸ hc)
  · rw [hn] at hc
    cases hc

theorem Listed.tail {l : List BindingRow} (hl : Listed w t (b :: l)) : Listed w t l :=
  fun c hc => hl c (List.mem_cons_of_mem _ hc)

/-- Every listed binding is given up, unless one cannot be. -/
theorem holds_releaseAll {mode : BindingRelease} (p : BindingRow → Bool) :
    Holds (k.contract.within (Drops t)) (forEach (releaseMode · mode)
      (w.bindings.values.filter fun b => decide (b.task = t) && p b))
      (After (fun _ s => Drops t w s ∧ ∀ j b, s.bindings.get j = some b → b.task = t → p b = false)
        fun _ _ => True) w := by
  have hloop := Holds.forEach (C := k.contract.within (Drops t)) (f := (releaseMode · mode))
    (P := fun rest s => Drops t w s ∧ Listed s t rest ∧
      ∀ j b, s.bindings.get j = some b → b.task = t → p b = true → b ∈ rest) (E := fun _ _ => True)
    (l := w.bindings.values.filter fun b => decide (b.task = t) && p b) (s := w) ?_ ?_
  · refine hloop.mono fun res s _ hres => ?_
    cases res with
    | error => trivial
    | ok =>
      obtain ⟨hd, -, hall⟩ := hres
      refine ⟨hd, fun j b hb ht => Bool.eq_false_iff.mpr fun hp => ?_⟩
      have hmem := hall j b hb ht hp
      cases hmem
  · rintro b rest s - ⟨hd, hlist, hall⟩
    refine (holds_releaseMode _ (hlist b List.mem_cons_self)).bounded.mono fun res s' _ hres => ?_
    cases res with
    | error => trivial
    | ok =>
      obtain ⟨hdrop, hmoves⟩ := hres
      obtain rfl : s' = _ := hdrop
      refine ⟨trans_of (Drops t) hd hmoves, hlist.tail.moves hmoves, fun j c hc ht hk => ?_⟩
      simp only [World.drop, Table.get_erase] at hc
      split_ifs at hc with hj
      rcases List.mem_cons.mp (hall j c hc ht hk) with rfl | hmem
      · exact absurd (Table.get_eq_some.mp hc).2.symm hj
      · exact hmem
  · refine ⟨refl_of (Drops t) w, listed_values p, fun j b hb ht hk => ?_⟩
    refine List.mem_filter.mpr ⟨Table.mem_values.mpr (Table.get_eq_some.mp hb).1, ?_⟩
    simp [ht, hk]

/-- The row of a closed task that was just read loses its assignee. -/
theorem holds_freed (hr : w.row t = some r) (hopen : r.isOpen = false) :
    Holds (k.contract.within (Tidies t))
      (Store.compareAndSwapTask { r.task with assignee := none } r.version) (fun _ _ => True) w := by
  have hid : r.task.id = t := World.id_of_row hr
  set freed : TaskRow := { r with
    task := { r.task with assignee := none }
    version := r.version + 1 } with hfreed
  have hre : Rewrite w r freed := .freed hopen rfl rfl
  have htidy : Tidies t w (w.putRow freed) := by
    refine tidies_putRow hr ⟨hre.ages, rfl, rfl, fun ho => ?_, Or.inr rfl⟩
    rw [hre.ages.closed hopen] at ho
    cases ho
  exact holds_compareAndSwap (k := k)
    (by exact hid ▸ hr) hre htidy

theorem holds_freeHolder {task : Task} (ht : task.id = t) (hc : ClosedAt w t) :
    Holds (k.contract.within (Tidies t)) (freeHolder task) (fun _ _ => True) w := by
  subst ht
  refine holds_readThen (c := .bindings) rfl (fun bindings _ => ?_) fun _ _ => trivial
  split
  · exact Holds.pure trivial
  · refine holds_readThen (c := .loadTask task.id) rfl (fun row hrow => ?_) fun _ _ => trivial
    obtain rfl := replies_loadTask.mp hrow
    refine Holds.orRaiseThen (fun r hr => ?_) fun _ => trivial
    split
    · exact Holds.pure trivial
    · refine (holds_freed hr (hc r hr)).bind (fun written s' _ _ => ?_) fun _ _ _ _ => trivial
      exact Holds.check (fun _ => trivial) fun _ => trivial

theorem holds_cleanupTerminal {task : Task} (report : Bool) (ht : task.id = t)
    (hc : task.status.isClosed = true → ClosedAt w t) :
    Holds (k.contract.within (Tidies t)) (cleanupTerminal task report) (fun _ _ => True) w := by
  subst ht
  have local_ : ∀ s, ClosedAt s task.id → Holds (k.contract.within (Tidies task.id)) (do
      let bindings ← Store.bindings
      forEach (releaseOrDefer task.mergeCommit.isSome report)
        (bindings.filter (·.task = task.id))
      freeHolder task) (fun _ _ => True) s := by
    intro s hclosed
    refine holds_readThen (c := .bindings) rfl (fun bindings hbs => ?_) fun _ _ => trivial
    obtain rfl := replies_bindings.mp hbs
    refine Holds.forEachThen (P := fun rest s' => Listed s' task.id rest ∧ ClosedAt s' task.id)
      (E := fun _ _ => True) ?_ ?_ (fun s' _ hs' => holds_freeHolder rfl hs'.2) fun _ _ _ => trivial
    · rintro b rest s' - ⟨hl, hcl⟩
      have hrel := (holds_releaseOrDefer (k := k) task.mergeCommit.isSome report
        (hl b List.mem_cons_self)).wider fun _ _ h => h.tidies
      refine hrel.bounded.mono fun r s'' _ hr => ?_
      cases r with
      | ok => exact ⟨hl.tail.moves hr.2, hcl.tidies hr.2⟩
      | error => trivial
    · exact ⟨by simpa using listed_values (w := s) (t := task.id) fun _ => true, hclosed⟩
  unfold cleanupTerminal
  split
  · exact Holds.pure trivial
  · rename_i hclosed
    have hclosed := hc (by simpa using hclosed)
    refine holds_readThen (c := .loadTask task.id) rfl (fun row _ => ?_) fun _ _ => trivial
    split
    · exact local_ w hclosed
    · refine (holds_cleanupRemote rfl).bounded.bind (fun _ s _ hs => ?_) fun _ _ _ _ => trivial
      exact local_ s (hclosed.tidies hs.2)

/-- A task that is failed on purpose is closed, unless nothing waited for it. -/
theorem holds_failRestore : Holds (k.contract.within (Eases t)) (failRestore t)
    (After (fun _ s => ClosedAt s t) fun _ s => k.prompt → ¬ Waiting s t) w := by
  refine holds_readThen (c := .loadTask t) rfl (fun row hrow => ?_) fun _ hu hp ht => hu hp t ht rfl
  obtain rfl := replies_loadTask.mp hrow
  refine Holds.orRaiseThen (fun (r : TaskRow) hr => ?_) fun hn _ => ?_
  · have hid : r.task.id = t := World.id_of_row hr
    refine holds_readThen (c := .newId) rfl (fun (event : String) _ => ?_)
      fun _ hu hp ht => hu hp t ht trivial
    set data : TaskProgress := (r.progress.map (·.data)).getD ⟨none, none⟩ with hdata
    set failed : Task := { r.task with status := .failed } with hfailed
    have hpipe : ∀ progress : Progress, progress.data = data →
        TaskRow.pipeline ⟨failed, r.version + 1, some progress⟩ = r.pipeline := by
      intro progress hd
      change progress.data.pipeline = r.pipeline
      rw [hd, hdata, TaskRow.pipeline]
      cases r.progress <;> rfl
    have hre : ∀ progress : Progress, progress.data = data →
        Rewrite w r ⟨failed, r.version + 1, some progress⟩ :=
      fun progress hd => .closed rfl (hpipe progress hd)
    have hrow' : w.row failed.id = some r := by rw [hfailed]; exact hid ▸ hr
    have hadv := holds_advanceTask (k := k) (R := Eases t) ("restore-failed:" ++ event)
      hrow' hre fun progress hd => eases_putRow hr
        ⟨(hre progress hd).ages, hpipe progress hd, fun ho => (by cases ho), Or.inl rfl⟩
    refine hadv.bind (fun written s _ hs => ?_) fun e s _ hs => ?_
    · obtain ⟨rfl, progress, hd, rfl⟩ := hs
      have hclosed : ClosedAt (w.putRow ⟨failed, r.version + 1, some progress⟩) t := by
        intro r' hr'
        rw [World.row_putRow, if_pos (by exact hid.symm)] at hr'
        obtain rfl := Option.some.inj hr'
        rfl
      refine Holds.checkThen (fun _ => ?_) fun h => (by cases h)
      have hclean := (holds_cleanupTerminal (k := k) false (show failed.id = t from hid)
        fun _ => hclosed).bounded
      refine (hclean.wider fun _ _ h => h.eases).mono fun res s' _ hres => ?_
      have hcl := hclosed.tidies hres.2
      cases res with
      | ok => exact hcl
      | error => exact fun _ => hcl.not_waiting
    · obtain ⟨rfl, hu⟩ := hs
      exact fun hp => by simpa [hfailed, hid] using hu hp
  · rintro ⟨r, v, st, i, b, hs, rfl, -⟩
    rw [hs.row] at hn
    cases hn

/-- The failure of a routine closes the task. -/
theorem holds_orFail {p : Routine Unit} {Q : Except Refusal Unit → World → Prop}
    (hp : Holds (k.contract.within (Only t)) p Q w) :
    Holds (k.contract.within (Only t)) (orFail t p)
      (After (fun _ s => Q (.ok ()) s) fun _ s => k.prompt → ¬ Waiting s t) w := by
  refine Holds.attemptThen hp fun r s _ hs => ?_
  split
  · exact Holds.pure hs
  · have hfail := (holds_failRestore (k := k) (t := t) (w := s)).wider fun _ _ h => h.only
    refine hfail.bind (fun _ s' _ hc => ?_) fun _ s' _ he => he
    exact Holds.raise fun _ => ClosedAt.not_waiting hc

end Agend.Engine
