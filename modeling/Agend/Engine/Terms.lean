import Agend.Engine.Orderly

/-! The contract of the engine's programs: what each call may do to the world, what more a dispatch
owes when its surroundings are steady, and how far a routine may reach. -/
namespace Agend.Engine

open Agend.Library Agend.Pipeline Agend.Runtime

/-- A review binding of an open task is of another ticket, or its reviewer has answered. -/
def Waiting (w : World) (t : String) : Prop :=
  ∃ r v st i b, Standing w r v st ∧ r.id = t ∧ r.isOpen = true ∧ w.bindings.get i = some b ∧
    b.task = t ∧ obsolete st b = true

/-- No workflow names a work stage like a ticket of one of its role reviews while an instance is
named by a number. -/
def Unambiguous (w : World) : Prop :=
  ∀ k wf s s' role count bound (n m : Nat), w.workflows.get k = some wf → s ∈ wf.stages → s' ∈ wf.stages →
    s.isKind .work = true → s'.stage = .approval (.role role) count bound →
    s.id = s'.id ++ "/" ++ toString n → w.agents.get (toString m) = none

/-- The calls that find an obsolete binding, or close the task it is left at. -/
def Call.Settles (t : String) : Call → Prop
  | .loadTask id => id = t
  | .advanceTask task _ _ _ => task.id = t
  | .newId | .loadWorkflow _ _ => True
  | _ => False

/-- While an obsolete binding waits, the calls that settle it go through, and git is found. -/
def Unhindered (w : World) (c : Call) (a : Answer) : Prop :=
  (∀ t, Waiting w t → c.Settles t → a.fault = none) ∧
    (c = .openGit → (∃ t, Waiting w t) → a.fault = none → a.yes = true)

/-- What is promised beyond faults: `steady` for the text of dispatches, `prompt` for the release
of obsolete bindings. -/
structure Terms where
  steady : Prop
  prompt : Prop

/-- What a dispatch owes: it is composed for the task as it stands, agrees with what was sent
before, and asks no reviewer twice. -/
def Dealt (k : Terms) (w : World) (m : NewMessage) : Prop :=
  ∃ r v st review i, Dispatched w m r v st review i ∧
    (k.steady → ∀ old, w.messages.get m.id = some old → old = m) ∧
    (k.prompt → review = true → i ∉ st.approvalReviewers)

def Terms.contract (k : Terms) : Contract interface where
  safe := Orderly
  assumes w c a := (k.steady → Unambiguous w) ∧ (k.prompt → Unhindered w c a)
  duty w c a := Change w (w.exec c a).2 ∧ ∀ m, c = .claimMessage m → Dealt k w m

/-! How far a routine reaches. -/

/-- The tasks `T` and what is theirs move, rows by `E` and bindings by `B`; messages are sent only
if `S`. -/
structure Moves (T : String → Prop) (S : Prop) (E : TaskRow → TaskRow → Prop)
    (B : Option BindingRow → Option BindingRow → Prop) (w w' : World) : Prop where
  home : w'.home = w.home
  git : w'.git = w.git
  agents : w'.agents = w.agents
  teams : w'.teams = w.teams
  workflows : w'.workflows = w.workflows
  message : ∀ id, w'.messages.get id = w.messages.get id ∨
    S ∧ w.messages.get id = none ∧ ∀ m, w'.messages.get id = some m → ∃ t, T t ∧ m.taskId = some t
  row : ∀ t, w'.row t = w.row t ∨
    T t ∧ ∃ r r', w.row t = some r ∧ w'.row t = some r' ∧ E r r'
  binding : ∀ i, w'.bindings.get i = w.bindings.get i ∨
    B (w.bindings.get i) (w'.bindings.get i)

namespace Moves

variable {T T' : String → Prop} {S S' : Prop} {E E' : TaskRow → TaskRow → Prop}
  {B B' : Option BindingRow → Option BindingRow → Prop} {w w' w'' : World}

theorem refl (w : World) : Moves T S E B w w :=
  ⟨rfl, rfl, rfl, rfl, rfl, fun _ => Or.inl rfl, fun _ => Or.inl rfl, fun _ => Or.inl rfl⟩

theorem trans (hE : ∀ r r' r'', E r r' → E r' r'' → E r r'')
    (hB : ∀ o o' o'', B o o' → B o' o'' → B o o'') (h : Moves T S E B w w')
    (h' : Moves T S E B w' w'') : Moves T S E B w w'' := by
  refine ⟨h'.home.trans h.home, h'.git.trans h.git, h'.agents.trans h.agents,
    h'.teams.trans h.teams, h'.workflows.trans h.workflows, fun id => ?_, fun t => ?_, fun i => ?_⟩
  · rcases h.message id with he | ⟨hs, hn, hm⟩
    · rcases h'.message id with he' | ⟨hs', hn', hm'⟩
      · exact Or.inl (he'.trans he)
      · exact Or.inr ⟨hs', he ▸ hn', hm'⟩
    · rcases h'.message id with he' | ⟨hs', hn', hm'⟩
      · exact Or.inr ⟨hs, hn, he' ▸ hm⟩
      · exact Or.inr ⟨hs, hn, hm'⟩
  · rcases h.row t with he | ⟨ht, r, r1, hr, hr1, hE1⟩
    · rcases h'.row t with he' | ⟨ht, r, r1, hr, hr1, hE1⟩
      · exact Or.inl (he'.trans he)
      · exact Or.inr ⟨ht, r, r1, he ▸ hr, hr1, hE1⟩
    · rcases h'.row t with he' | ⟨_, r2, r3, hr2, hr3, hE2⟩
      · exact Or.inr ⟨ht, r, r1, hr, he'.trans hr1, hE1⟩
      · obtain rfl := Option.some.inj (hr1.symm.trans hr2)
        exact Or.inr ⟨ht, r, r3, hr, hr3, hE _ _ _ hE1 hE2⟩
  · rcases h.binding i with he | hb
    · rcases h'.binding i with he' | hb'
      · exact Or.inl (he'.trans he)
      · exact Or.inr (he ▸ hb')
    · rcases h'.binding i with he' | hb'
      · exact Or.inr (he'.symm ▸ hb)
      · exact Or.inr (hB _ _ _ hb hb')

theorem mono (hT : ∀ t, T t → T' t) (hS : S → S') (hE : ∀ r r', E r r' → E' r r')
    (hB : ∀ o o', B o o' → B' o o') (h : Moves T S E B w w') : Moves T' S' E' B' w w' := by
  refine ⟨h.home, h.git, h.agents, h.teams, h.workflows, fun id => ?_, fun t => ?_, fun i => ?_⟩
  · rcases h.message id with he | ⟨hs, hn, hm⟩
    · exact Or.inl he
    · exact Or.inr ⟨hS hs, hn, fun m hm1 => (hm m hm1).imp fun t ht => ⟨hT t ht.1, ht.2⟩⟩
  · rcases h.row t with he | ⟨ht, r, r', hr, hr', he⟩
    · exact Or.inl he
    · exact Or.inr ⟨hT t ht, r, r', hr, hr', hE r r' he⟩
  · exact (h.binding i).imp id (hB _ _)

/-- A row after a move is the row before it, or moved with its task. -/
theorem row_of (h : Moves T S E B w w') {t : String} {r' : TaskRow} (hr : w'.row t = some r') :
    w.row t = some r' ∨ T t ∧ ∃ r, w.row t = some r ∧ E r r' := by
  rcases h.row t with he | ⟨ht, r, r1, hr0, hr1, hE⟩
  · exact Or.inl (he ▸ hr)
  · obtain rfl := Option.some.inj (hr.symm.trans hr1)
    exact Or.inr ⟨ht, r, hr0, hE⟩

theorem exists_row (h : Moves T S E B w w') {t : String} {r : TaskRow} (hr : w.row t = some r) :
    ∃ r', w'.row t = some r' ∧ (r' = r ∨ E r r') := by
  rcases h.row t with he | ⟨-, r0, r1, hr0, hr1, hE⟩
  · exact ⟨r, he.trans hr, Or.inl rfl⟩
  · obtain rfl := Option.some.inj (hr.symm.trans hr0)
    exact ⟨r1, hr1, Or.inr hE⟩

end Moves

/-- Cleanup: a closed task loses its assignee, any task may be annotated. -/
structure Tidied (r r' : TaskRow) : Prop where
  ages : Ages r r'
  pipeline : r'.pipeline = r.pipeline
  status : r'.task.status = r.task.status
  task : r'.isOpen = true → r'.task = r.task
  assignee : r'.task.assignee = r.task.assignee ∨ r'.task.assignee = none

/-- Cleanup that may close the task first. -/
structure Eased (r r' : TaskRow) : Prop where
  ages : Ages r r'
  pipeline : r'.pipeline = r.pipeline
  task : r'.isOpen = true → r'.task = r.task
  assignee : r'.task.assignee = r.task.assignee ∨ r'.task.assignee = none

/-- The task is where it was, whoever holds it. -/
structure Held (r r' : TaskRow) : Prop where
  ages : Ages r r'
  pipeline : r'.pipeline = r.pipeline
  status : r'.task.status = r.task.status

theorem Tidied.eased {r r' : TaskRow} (h : Tidied r r') : Eased r r' :=
  ⟨h.ages, h.pipeline, h.task, h.assignee⟩

theorem Tidied.held {r r' : TaskRow} (h : Tidied r r') : Held r r' :=
  ⟨h.ages, h.pipeline, h.status⟩

theorem isOpen_eq {r r' : TaskRow} (h : r'.task.status = r.task.status) : r'.isOpen = r.isOpen := by
  rw [TaskRow.isOpen, TaskRow.isOpen, h]

theorem Tidied.trans {r r' r'' : TaskRow} (h : Tidied r r') (h' : Tidied r' r'') :
    Tidied r r'' := by
  refine ⟨h.ages.trans h'.ages, h'.pipeline.trans h.pipeline, h'.status.trans h.status,
    fun ho => ?_, ?_⟩
  · rw [h'.task ho, h.task (by rwa [isOpen_eq h'.status] at ho)]
  · rcases h'.assignee with ha | ha
    · rw [ha]
      exact h.assignee
    · exact Or.inr ha

theorem Eased.trans {r r' r'' : TaskRow} (h : Eased r r') (h' : Eased r' r'') : Eased r r'' := by
  refine ⟨h.ages.trans h'.ages, h'.pipeline.trans h.pipeline, fun ho => ?_, ?_⟩
  · have ho' : r'.isOpen = true := by
      by_contra hc
      have hclosed := h'.ages.closed (by simpa using hc)
      rw [ho] at hclosed
      cases hclosed
    rw [h'.task ho, h.task ho']
  · rcases h'.assignee with ha | ha
    · rw [ha]
      exact h.assignee
    · exact Or.inr ha

theorem Held.trans {r r' r'' : TaskRow} (h : Held r r') (h' : Held r' r'') : Held r r'' :=
  ⟨h.ages.trans h'.ages, h'.pipeline.trans h.pipeline, h'.status.trans h.status⟩

/-- A binding of a task is gone. -/
def Dropped (T : String → Prop) (o o' : Option BindingRow) : Prop :=
  (∃ b, o = some b ∧ T b.task) ∧ o' = none

/-- Only bindings of these tasks come and go. -/
def Touched (T : String → Prop) (o o' : Option BindingRow) : Prop :=
  (∀ b, o = some b → T b.task) ∧ ∀ b, o' = some b → T b.task

theorem Dropped.touched {T : String → Prop} {o o' : Option BindingRow} (h : Dropped T o o') :
    Touched T o o' := by
  obtain ⟨⟨b, rfl, hb⟩, rfl⟩ := h
  exact ⟨fun c hc => Option.some.inj hc ▸ hb, by simp⟩

def Drops (t : String) : World → World → Prop :=
  Moves (· = t) False (fun _ _ => False) (Dropped (· = t))

def Tidies (t : String) : World → World → Prop :=
  Moves (· = t) False Tidied (Dropped (· = t))

def Eases (t : String) : World → World → Prop :=
  Moves (· = t) False Eased (Dropped (· = t))

/-- No obsolete binding is left where none was. -/
def Fresher (w w' : World) : Prop := ∀ t, Waiting w' t → Waiting w t

def Assigns (t : String) (w w' : World) : Prop :=
  Moves (· = t) True Held (Touched (· = t)) w w' ∧ Fresher w w'

def Only (t : String) : World → World → Prop :=
  Moves (· = t) True Ages (Touched (· = t))

section preorders

variable (t : String)

theorem Dropped.trans {T : String → Prop} {o o' o'' : Option BindingRow} (h : Dropped T o o')
    (h' : Dropped T o' o'') : Dropped T o o'' := ⟨h.1, h'.2⟩

theorem Touched.trans {T : String → Prop} {o o' o'' : Option BindingRow} (h : Touched T o o')
    (h' : Touched T o' o'') : Touched T o o'' := ⟨h.1, h'.2⟩

instance : IsPreorder World (Drops t) where
  refl := Moves.refl
  trans _ _ _ := Moves.trans (fun _ _ _ h _ => h.elim) fun _ _ _ => Dropped.trans

instance : IsPreorder World (Tidies t) where
  refl := Moves.refl
  trans _ _ _ := Moves.trans (fun _ _ _ => Tidied.trans) fun _ _ _ => Dropped.trans

instance : IsPreorder World (Eases t) where
  refl := Moves.refl
  trans _ _ _ := Moves.trans (fun _ _ _ => Eased.trans) fun _ _ _ => Dropped.trans

instance : IsPreorder World (Assigns t) where
  refl w := ⟨Moves.refl w, fun _ h => h⟩
  trans _ _ _ h h' := ⟨h.1.trans (fun _ _ _ => Held.trans) (fun _ _ _ => Touched.trans) h'.1,
    fun t ht => h.2 t (h'.2 t ht)⟩

instance : IsPreorder World (Only t) where
  refl := Moves.refl
  trans _ _ _ := Moves.trans (fun _ _ _ => Ages.trans) fun _ _ _ => Touched.trans

instance : IsPreorder World (fun _ _ => True) where
  refl _ := trivial
  trans _ _ _ _ _ := trivial

end preorders

section implications

variable {t : String} {w w' : World}

theorem Drops.tidies (h : Drops t w w') : Tidies t w w' :=
  Moves.mono (fun _ h => h) id (fun _ _ h => h.elim) (fun _ _ h => h) h

theorem Tidies.eases (h : Tidies t w w') : Eases t w w' :=
  Moves.mono (fun _ h => h) id (fun _ _ => Tidied.eased) (fun _ _ h => h) h

theorem Eases.only (h : Eases t w w') : Only t w w' :=
  Moves.mono (fun _ h => h) (fun h => h.elim) (fun _ _ h => h.ages) (fun _ _ => Dropped.touched) h

theorem Assigns.only (h : Assigns t w w') : Only t w w' :=
  Moves.mono (fun _ h => h) id (fun _ _ h => h.ages) (fun _ _ h => h) h.1

variable {T : String → Prop} {S : Prop} {E : TaskRow → TaskRow → Prop}
  {B : Option BindingRow → Option BindingRow → Prop} {r r' : TaskRow} {v : ValidatedWorkflow}
  {st : PipelineState}

/-- Where a row stands after a move that keeps pipelines is where it stood. -/
theorem Standing.back (h : Moves T S E B w w')
    (hE : ∀ r r', E r r' → Ages r r' ∧ r'.pipeline = r.pipeline) (hs : Standing w' r' v st) :
    ∃ r, Standing w r v st ∧ r.id = r'.id ∧ (r' = r ∨ E r r') := by
  rcases h.row_of hs.row with hr | ⟨-, r, hr, he⟩
  · refine ⟨r', ⟨hr, ?_, hs.stored, hs.invariant⟩, rfl, Or.inl rfl⟩
    rw [← h.workflows]
    exact hs.workflow
  · obtain ⟨hages, hp⟩ := hE r r' he
    have hid : r.id = r'.id := World.id_of_row hr
    refine ⟨r, ⟨by rw [hid]; exact hr, ?_, hp.symm.trans hs.stored, ?_⟩, hid, Or.inr he⟩
    · rw [← hages.workflow, ← h.workflows]
      exact hs.workflow
    · rw [hid]
      exact hs.invariant

theorem Standing.forth (h : Moves T S E B w w')
    (hE : ∀ r r', E r r' → Ages r r' ∧ r'.pipeline = r.pipeline) (hs : Standing w r v st) :
    ∃ r', Standing w' r' v st ∧ r'.id = r.id ∧ (r' = r ∨ E r r') := by
  obtain ⟨r', hr', hcase⟩ := h.exists_row hs.row
  have hid : r'.id = r.id := World.id_of_row hr'
  have hboth : pinned r'.task = pinned r.task ∧ r'.pipeline = r.pipeline := by
    rcases hcase with rfl | he
    · exact ⟨rfl, rfl⟩
    · exact ⟨(hE r r' he).1.workflow, (hE r r' he).2⟩
  refine ⟨r', ⟨by rw [hid]; exact hr', ?_, hboth.2.trans hs.stored, ?_⟩, hid, hcase⟩
  · rw [hboth.1, h.workflows]
    exact hs.workflow
  · rw [hid]
    exact hs.invariant

theorem open_of_ages {r r' : TaskRow} (h : Ages r r') (ho : r'.isOpen = true) : r.isOpen = true := by
  by_contra hc
  have hclosed := h.closed (by simpa using hc)
  rw [ho] at hclosed
  cases hclosed

/-- Moves that only drop bindings leave no obsolete one behind. -/
theorem fresher_of_moves (h : Moves T S E (Dropped T) w w')
    (hE : ∀ r r', E r r' → Ages r r' ∧ r'.pipeline = r.pipeline) : Fresher w w' := by
  rintro t ⟨r', v, st, i, b, hs, rfl, ho, hb, ht, hobs⟩
  obtain ⟨r, hs0, hid, hcase⟩ := hs.back h hE
  refine ⟨r, v, st, i, b, hs0, hid, ?_, ?_, ht, hobs⟩
  · rcases hcase with rfl | he
    · exact ho
    · exact open_of_ages (hE r r' he).1 ho
  · rcases h.binding i with he | ⟨-, hn⟩
    · exact he ▸ hb
    · rw [hn] at hb
      cases hb

theorem Eases.fresher (h : Eases t w w') : Fresher w w' :=
  fresher_of_moves h fun _ _ he => ⟨he.ages, he.pipeline⟩

theorem Tidies.assigns (h : Tidies t w w') : Assigns t w w' :=
  ⟨Moves.mono (fun _ h => h) (fun h => h.elim) (fun _ _ => Tidied.held) (fun _ _ => Dropped.touched) h,
    h.eases.fresher⟩

end implications

/-! The rules for calls that only read. -/

/-- The world stays as it is. -/
def Call.reads : Call → Bool
  | .openGit | .saveWorkflow _ | .advancePipeline _ _ _ _ | .advanceTask _ _ _ _
  | .compareAndSwapTask _ _ | .taskNote _ _ _ _ | .putBinding _ | .deleteBinding _
  | .claimMessage _ | .joinTeam _ _ _ | .addTeam _ | .setTeamWorkflow _ _
  | .createPipelineTask _ _ | .addInstance _ | .ensure _ _ | .release _ _ _ => false
  | _ => true

/-- What a call replies when it goes through. -/
def Replies (w : World) (c : Call) (x : c.Reply) : Prop :=
  ∃ a, (w.perform a c).1 = .ok x

theorem perform_reads {c : Call} (h : c.reads = true) (w : World) (a : Answer) :
    (w.perform a c).2 = w ∧ ∃ x, (w.perform a c).1 = .ok x := by
  cases c <;> first | exact ⟨rfl, _, rfl⟩ | cases h

variable {k : Terms} {R : World → World → Prop} [IsPreorder World R] {w : World} {c : Call}
  {α β : Type}

theorem fault_or_perform (w : World) (c : Call) (a : Answer) :
    (∃ reason, a.fault = some reason ∧ w.exec c a = (.error (invalid reason), w)) ∨
      a.fault = none ∧ w.exec c a = w.perform a c := by
  unfold World.exec
  cases h : a.fault with
  | some reason => exact Or.inl ⟨reason, rfl, rfl⟩
  | none => exact Or.inr ⟨rfl, rfl⟩

/-- A read leaves the world alone; it fails only when nobody waits for it. -/
theorem holds_read (hc : c.reads = true) : Holds (k.contract.within R) (call c)
    (After (fun x s => s = w ∧ Replies w c x)
      fun _ s => s = w ∧ (k.prompt → ∀ t, Waiting w t → ¬ c.Settles t)) w := by
  refine Holds.ask fun _ a ha => ?_
  have hno : ∀ m, c ≠ .claimMessage m := by
    rintro m rfl
    cases hc
  rcases fault_or_perform w c a with ⟨reason, hf, he⟩ | ⟨hf, he⟩
  · refine ⟨⟨⟨?_, fun m hm => absurd hm (hno m)⟩, ?_⟩, fun _ => ?_⟩
    · rw [he]
      exact .same
    · change R w (w.exec c a).2
      rw [he]
      exact refl_of R w
    · change After _ _ (w.exec c a).1 (w.exec c a).2
      rw [he]
      refine ⟨rfl, fun hp t ht hs => ?_⟩
      have := (ha.2 hp).1 t ht hs
      rw [hf] at this
      cases this
  · obtain ⟨hw, x, hx⟩ := perform_reads hc w a
    refine ⟨⟨⟨?_, fun m hm => absurd hm (hno m)⟩, ?_⟩, fun _ => ?_⟩
    · rw [he, hw]
      exact .same
    · change R w (w.exec c a).2
      rw [he, hw]
      exact refl_of R w
    · change After _ _ (w.exec c a).1 (w.exec c a).2
      rw [he, hw, hx]
      exact ⟨rfl, a, hx⟩

theorem holds_readThen (hc : c.reads = true) {f : c.Reply → Routine β}
    {Q : Except Refusal β → World → Prop}
    (ok : ∀ x, Replies w c x → Holds (k.contract.within R) (f x) Q w)
    (fail : ∀ e, (k.prompt → ∀ t, Waiting w t → ¬ c.Settles t) → Q (.error e) w) :
    Holds (k.contract.within R) (call c >>= f) Q w := by
  refine (holds_read hc).bind (fun x s _ hx => ?_) fun e s _ he => ?_
  · obtain ⟨rfl, hx⟩ := hx
    exact ok x hx
  · obtain ⟨rfl, he⟩ := he
    exact fail e he

omit [IsPreorder World R] in
/-- A steady world is one at every call. -/
theorem holds_steady {f : c.Reply → Routine β} {Q : Except Refusal β → World → Prop}
    (h : (k.steady → Unambiguous w) → Holds (k.contract.within R) (call c >>= f) Q w) :
    Holds (k.contract.within R) (call c >>= f) Q w :=
  Holds.askAssuming (fun _ ha => ha.1) h

section replies

@[simp] theorem replies_settings {x : Settings} : Replies w .settings x ↔ x = ⟨w.home, w.git⟩ :=
  ⟨fun ⟨_, h⟩ => (Except.ok.inj h).symm, fun h => ⟨{}, congrArg Except.ok h.symm⟩⟩
@[simp] theorem replies_tasks {x : List Task} :
    Replies w .tasks x ↔ x = w.tasks.values.map (·.task) :=
  ⟨fun ⟨_, h⟩ => (Except.ok.inj h).symm, fun h => ⟨{}, congrArg Except.ok h.symm⟩⟩
@[simp] theorem replies_teams {x : List Team} : Replies w .teams x ↔ x = w.teams.values :=
  ⟨fun ⟨_, h⟩ => (Except.ok.inj h).symm, fun h => ⟨{}, congrArg Except.ok h.symm⟩⟩
@[simp] theorem replies_members {x : List Agent} : Replies w .members x ↔ x = w.agents.values :=
  ⟨fun ⟨_, h⟩ => (Except.ok.inj h).symm, fun h => ⟨{}, congrArg Except.ok h.symm⟩⟩
@[simp] theorem replies_bindings {x : List BindingRow} :
    Replies w .bindings x ↔ x = w.bindings.values :=
  ⟨fun ⟨_, h⟩ => (Except.ok.inj h).symm, fun h => ⟨{}, congrArg Except.ok h.symm⟩⟩
@[simp] theorem replies_loadTask {id : String} {x : Option TaskRow} :
    Replies w (.loadTask id) x ↔ x = w.row id :=
  ⟨fun ⟨_, h⟩ => (Except.ok.inj h).symm, fun h => ⟨{}, congrArg Except.ok h.symm⟩⟩
@[simp] theorem replies_loadWorkflow {id : String} {version : Nat} {x : Option Workflow} :
    Replies w (.loadWorkflow id version) x ↔ x = w.workflows.get (id, version) :=
  ⟨fun ⟨_, h⟩ => (Except.ok.inj h).symm, fun h => ⟨{}, congrArg Except.ok h.symm⟩⟩
@[simp] theorem replies_latestWorkflow {id : String} {x : Option Workflow} :
    Replies w (.latestWorkflow id) x ↔ x = w.latestWorkflow id :=
  ⟨fun ⟨_, h⟩ => (Except.ok.inj h).symm, fun h => ⟨{}, congrArg Except.ok h.symm⟩⟩
@[simp] theorem replies_message {id : String} {x : Option NewMessage} :
    Replies w (.message id) x ↔ x = w.messages.get id :=
  ⟨fun ⟨_, h⟩ => (Except.ok.inj h).symm, fun h => ⟨{}, congrArg Except.ok h.symm⟩⟩

end replies

end Agend.Engine
