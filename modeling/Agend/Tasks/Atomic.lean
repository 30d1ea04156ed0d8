import Agend.Tasks.Rows

/-! What each transaction on a task writes when it commits, and that it writes nothing when it
does not. -/
namespace Agend.Tasks

open Library Pipeline Engine Tx
open Agend.Runtime (DeliveryState Message MovesTo Marks)

variable {db db' : Db} {task : Task} {expected : Nat} {p : TaskProgress} {event : StoredEvent}
  {confirmation : Option String} {clear : Bool} {fault : Option Nat} {id : String} {now : Nat}

theorem toI64_eq_ok {value value' : Nat} {what : String} (h : toI64 value what = .ok value') :
    value' = value := by
  unfold toI64 at h
  split_ifs at h
  exact (Except.ok.inj h).symm

/-- Only the row of one task is another one. -/
def Sets (db db' : Db) (r : Row) : Prop :=
  ∀ k, db'.tasks.get k = if k = r.id then some r else db.tasks.get k

theorem sets_putRow (db : Db) (r : Row) : Sets db (putRow db r) r := fun _ => Table.get_put

theorem Sets.trans {db1 : Db} {r r' : Row} (h : Sets db db1 r) (h' : Sets db1 db' r')
    (hid : r'.id = r.id) : Sets db db' r' := by
  intro k
  rw [h' k, h k, hid]
  split_ifs <;> rfl

theorem Sets.self {r : Row} (h : Sets db db' r) : db'.tasks.get r.id = some r := by
  rw [h r.id, if_pos rfl]

/-- A write keeps the events and the messages. -/
structure Writes (db db' : Db) (r : Row) : Prop where
  tasks : Sets db db' r
  events : db'.events = db.events
  mail : db'.mail = db.mail

theorem writes_putRow (db : Db) (r : Row) : Writes db (putRow db r) r :=
  ⟨sets_putRow db r, rfl, rfl⟩

/-- The version matched and grew by one, or nothing was written. -/
theorem moves_compareAndSwap : Moves (compareAndSwap task expected) fun db result db' =>
    (∃ r, db.tasks.get task.id = some r ∧ r.version = expected ∧
      result = .written (expected + 1) ∧ Writes db db' (r.write task (expected + 1))) ∨
    result.isWritten = false ∧ db' = db := by
  have hcurrent : Moves (statement fun db : Db =>
      .ok (CasResult.conflict ((db.tasks.get task.id).map (·.version)), db)) fun db result db' =>
      (∃ r, db.tasks.get task.id = some r ∧ r.version = expected ∧
        result = .written (expected + 1) ∧ Writes db db' (r.write task (expected + 1))) ∨
      result.isWritten = false ∧ db' = db := by
    refine moves_statement.mono fun s a s' h => ?_
    obtain ⟨rfl, rfl⟩ := Prod.mk.inj (Except.ok.inj h)
    exact Or.inr ⟨rfl, rfl⟩
  unfold compareAndSwap
  split_ifs
  · refine (Moves.bind (Q := fun found s a s' => if found then a = .written (expected + 1) ∧ s' = s
      else a.isWritten = false ∧ s' = s) moves_statement fun found => ?_).mono ?_
    · cases found with
      | true => exact moves_pure
      | false =>
        rw [if_neg Bool.false_ne_true]
        refine moves_statement.mono fun s a s' h => ?_
        obtain ⟨rfl, rfl⟩ := Prod.mk.inj (Except.ok.inj h)
        exact ⟨rfl, rfl⟩
    · rintro s a s' ⟨found, s1, h, h'⟩
      obtain ⟨_, -, h⟩ := bind_eq_ok.mp h
      cases hget : s.tasks.get task.id with
      | none =>
        rw [hget] at h
        obtain ⟨rfl, rfl⟩ := Prod.mk.inj (Except.ok.inj h)
        exact Or.inr h'
      | some r =>
        rw [hget] at h
        dsimp only at h
        split_ifs at h with hv
        · obtain ⟨rfl, rfl⟩ := Prod.mk.inj (Except.ok.inj h)
          obtain ⟨rfl, rfl⟩ := h'
          exact Or.inl ⟨r, rfl, hv, rfl, writes_putRow s _⟩
        · obtain ⟨rfl, rfl⟩ := Prod.mk.inj (Except.ok.inj h)
          exact Or.inr h'
  · exact moves_fail.mono fun _ _ _ h => h.elim
  · exact hcurrent

theorem moves_writeProgress : Moves (writeProgress id p) fun db _ db' =>
    ∀ r, db.tasks.get id = some r → Writes db db' (r.setProgress p) := by
  unfold writeProgress
  refine moves_statement.mono fun s a s' h => ?_
  intro r hr
  obtain ⟨_, -, h⟩ := bind_eq_ok.mp h
  rw [hr] at h
  obtain ⟨-, rfl⟩ := Prod.mk.inj (Except.ok.inj h)
  exact writes_putRow s _

theorem moves_clearAttention : Moves (clearAttention id) fun db _ db' =>
    ∀ r, db.tasks.get id = some r → Writes db db' { r with attentionReason := none } := by
  unfold clearAttention
  refine moves_statement.mono fun s a s' h => ?_
  intro r hr
  rw [hr] at h
  obtain ⟨-, rfl⟩ := Prod.mk.inj (Except.ok.inj h)
  exact writes_putRow s _

theorem moves_appendEvent : Moves (appendEvent id event) fun db _ db' =>
    db' = { db with events := db.events ++ [⟨id, event⟩] } := by
  unfold appendEvent
  refine moves_statement.mono fun s a s' h => ?_
  obtain ⟨_, -, h⟩ := bind_eq_ok.mp h
  obtain ⟨-, h⟩ := require_bind_eq_ok.mp h
  exact (Prod.mk.inj (Except.ok.inj h)).2.symm

/-- What confirming a dispatch did to the messages: a failed one is never confirmed, a tracked one
keeps its state. -/
inductive Confirms (mail mail' : Agend.Runtime.Store) (id : String) : Prop
  | absent (hm : mail.messages.get id = none) (hs : mail' = mail)
  | tracked {m : Message} (hm : mail.messages.get id = some m) (hf : m.state ≠ .failed)
      (hd : mail.deliveries.get id ≠ none) (hs : mail' = mail)
  | confirmed {m m' : Message} (hm : mail.messages.get id = some m) (hf : m.state ≠ .failed)
      (hd : mail.deliveries.get id = none) (hmove : MovesTo m m' .confirmed)
      (hs : Marks mail mail' m m')

theorem moves_advanceMessage {next : DeliveryState} :
    Moves (advanceMessage id next now) fun db _ db' => ∃ r,
      db.mail.advance id next none now = .ok (db'.mail, r) ∧ db' = { db with mail := db'.mail } := by
  unfold advanceMessage
  refine moves_statement.mono fun s a s' h => ?_
  obtain ⟨⟨mail, r⟩, hmail, h⟩ := map_eq_ok.mp h
  obtain ⟨-, rfl⟩ := Prod.mk.inj h
  exact ⟨r, hmail, rfl⟩

theorem marks_of_advance {mail mail' : Agend.Runtime.Store} {m : Message} {next : DeliveryState}
    {r : Option Message} (hm : mail.messages.get id = some m)
    (hcan : m.state.canTransitionTo next = true)
    (h : mail.advance id next none now = .ok (mail', r)) :
    ∃ m', MovesTo m m' next ∧ Marks mail mail' m m' := by
  obtain ⟨-, h⟩ := require_bind_eq_ok.mp h
  obtain ⟨m', hmove, rfl⟩ := Agend.Runtime.Store.advanceClaude_eq_ok hm hcan h
  exact ⟨m', hmove, Agend.Runtime.Store.marks_put hmove⟩

/-- Two rewrites of one message are one. -/
theorem marks_trans {mail mail1 mail' : Agend.Runtime.Store} {m m1 m' : Message}
    (h : Marks mail mail1 m m1) (h' : Marks mail1 mail' m1 m') (hid : m1.id = m.id) :
    Marks mail mail' m m' := by
  refine ⟨h.toFrame.trans h'.toFrame, fun k => ?_, h'.deliveries.trans h.deliveries⟩
  rw [h'.messages k, h.messages k, hid]
  split_ifs <;> rfl

/-- An untracked dispatch that did not fail is confirmed, through the states before it. -/
theorem moves_receive {m : Message} (hf : m.state ≠ .failed) :
    Moves (do
      (if m.state = .queued then advanceMessage id .sent now else pure ())
      (if m.state ≠ .confirmed then advanceMessage id .confirmed now else pure ()))
      fun db _ db' => db.mail.messages.get id = some m → db.mail.deliveries.get id = none →
        Confirms db.mail db'.mail id ∧ db' = { db with mail := db'.mail } := by
  have hid : ∀ {mail : Agend.Runtime.Store}, mail.messages.get id = some m → m.id = id :=
    fun hm => Agend.Runtime.Store.id_of_message hm
  cases hs : m.state with
  | failed => exact absurd hs hf
  | confirmed =>
    refine (Moves.bind (Q := fun _ s _ s' => s' = s) moves_pure fun _ => ?_).mono ?_
    · exact moves_pure.mono fun _ _ _ h => h.2
    · rintro s _ s' ⟨_, s1, ⟨-, rfl⟩, rfl⟩ hm hd
      refine ⟨.confirmed hm hf hd (hs ▸ MovesTo.refl) ?_, rfl⟩
      obtain rfl := hid hm
      exact Agend.Runtime.Store.marks_self hm
  | sent =>
    refine (Moves.bind (Q := fun _ s _ s' => ∃ r,
        s.mail.advance id .confirmed none now = .ok (s'.mail, r) ∧ s' = { s with mail := s'.mail })
      moves_pure fun _ => moves_advanceMessage).mono ?_
    rintro s _ s' ⟨_, s1, ⟨-, rfl⟩, r, hr, hs'⟩ hm hd
    obtain ⟨m', hmove, hmarks⟩ := marks_of_advance hm (by rw [hs]; rfl) hr
    exact ⟨.confirmed hm hf hd hmove hmarks, hs'⟩
  | queued =>
    refine (Moves.bind (Q := fun _ s _ s' => ∃ r,
        s.mail.advance id .confirmed none now = .ok (s'.mail, r) ∧ s' = { s with mail := s'.mail })
      moves_advanceMessage fun _ => moves_advanceMessage).mono ?_
    rintro s _ s' ⟨_, s1, ⟨r1, hr1, hs1⟩, r, hr, hs'⟩ hm hd
    obtain ⟨m1, hmove1, hmarks1⟩ := marks_of_advance hm (by rw [hs]; rfl) hr1
    have hm1 : s1.mail.messages.get id = some m1 := by rw [hmarks1.messages, if_pos (hid hm).symm]
    obtain ⟨m', hmove, hmarks⟩ := marks_of_advance hm1 (by rw [hmove1.state]; rfl) hr
    refine ⟨.confirmed hm hf hd (hmove1.trans hmove) (marks_trans hmarks1 hmarks hmove1.id), ?_⟩
    rw [hs', hs1]

theorem moves_confirm : Moves (confirm id now) fun db _ db' =>
    Confirms db.mail db'.mail id ∧ db' = { db with mail := db'.mail } := by
  unfold confirm
  refine (Moves.bind (Q := fun found s _ s' => found = s.mail.messages.get id →
    Confirms s.mail s'.mail id ∧ s' = { s with mail := s'.mail }) moves_statement
      fun found => ?_).mono ?_
  · cases found with
    | none =>
      refine moves_pure.mono ?_
      rintro s _ s' ⟨-, rfl⟩ hm
      exact ⟨.absent hm.symm rfl, rfl⟩
    | some m =>
      dsimp only
      by_cases hf : m.state = .failed
      · rw [if_pos hf]
        exact moves_fail.mono fun _ _ _ h => h.elim
      · rw [if_neg hf]
        refine (Moves.bind (Q := fun tracked s _ s' =>
          tracked = (s.mail.deliveries.get id).isSome → s.mail.messages.get id = some m →
          Confirms s.mail s'.mail id ∧ s' = { s with mail := s'.mail }) moves_statement
            fun tracked => ?_).mono ?_
        · cases tracked with
          | true =>
            refine moves_pure.mono ?_
            rintro s _ s' ⟨-, rfl⟩ hd hm
            refine ⟨.tracked hm hf (fun hn => ?_) rfl, rfl⟩
            rw [hn] at hd
            cases hd
          | false =>
            rw [if_neg Bool.false_ne_true]
            refine (moves_receive hf).mono fun s _ s' h hd hm => h hm ?_
            exact Option.not_isSome_iff_eq_none.mp (by rw [← hd]; exact Bool.false_ne_true)
        · rintro s _ s' ⟨tracked, s1, h, h'⟩ hm
          obtain ⟨rfl, rfl⟩ := Prod.mk.inj (Except.ok.inj h)
          exact h' rfl hm.symm
  · rintro s _ s' ⟨found, s1, h, h'⟩
    obtain ⟨rfl, rfl⟩ := Prod.mk.inj (Except.ok.inj h)
    exact h' rfl

/-- The row that a transition leaves. -/
def moved (r : Row) (task : Task) (version : Nat) (p : TaskProgress) (clear : Bool) : Row :=
  let r := (r.write task version).setProgress p
  if clear then { r with attentionReason := none } else r

/-- What the statements after the version check write. -/
structure Completes (db db' : Db) (r : Row) (event : StoredEvent) (confirmation : Option String) :
    Prop where
  tasks : Sets db db' r
  events : db'.events = db.events ++ [⟨r.id, event⟩]
  mail : match confirmation with
    | none => db'.mail = db.mail
    | some id => Confirms db.mail db'.mail id

/-- Everything that an advance of a task writes when it commits. -/
def Advances (db db' : Db) (task : Task) (expected : Nat) (p : TaskProgress) (event : StoredEvent)
    (confirmation : Option String) (clear : Bool) : Prop :=
  ∃ r, db.tasks.get task.id = some r ∧ r.version = expected ∧
    Completes db db' (moved r task (expected + 1) p clear) event confirmation

theorem id_moved {r : Row} {version : Nat} : (moved r task version p clear).id = task.id := by
  cases clear <;> rfl

theorem moves_writes : Moves (writes task p event confirmation clear) fun db _ db' =>
    ∀ (r : Row) (version : Nat), db.tasks.get task.id = some (r.write task version) →
      Completes db db' (moved r task version p clear) event confirmation := by
  have hclear : Moves (if clear then clearAttention task.id else pure ()) fun db _ db' =>
      ∀ r, db.tasks.get task.id = some r → r.id = task.id →
        Writes db db' (if clear then { r with attentionReason := none } else r) := by
    cases clear with
    | true => exact moves_clearAttention.mono fun _ _ _ h r hr _ => h r hr
    | false =>
      refine moves_pure.mono ?_
      rintro s _ s' ⟨-, rfl⟩ r hr hid
      rw [if_neg Bool.false_ne_true]
      refine ⟨fun k => ?_, rfl, rfl⟩
      split_ifs with hk
      · rw [hk, hid, hr]
      · rfl
  have hconfirm : Moves (match confirmation with
      | none => (pure () : Transaction Unit)
      | some id => confirm id event.occurredAtUnixMs) fun db _ db' =>
      (match confirmation with
        | none => db'.mail = db.mail
        | some id => Confirms db.mail db'.mail id) ∧ db' = { db with mail := db'.mail } := by
    cases confirmation with
    | none =>
      refine moves_pure.mono ?_
      rintro s _ s' ⟨-, rfl⟩
      exact ⟨rfl, rfl⟩
    | some id => exact moves_confirm
  refine (moves_writeProgress.bind fun _ => hclear.bind fun _ =>
    moves_appendEvent.bind fun _ => hconfirm).mono ?_
  rintro s _ s' ⟨_, s1, hp, _, s2, hc, _, s3, rfl, hmail, hs'⟩ r version hrow
  have h1 := hp _ hrow
  have h2 := hc _ h1.tasks.self rfl
  refine ⟨?_, ?_, ?_⟩
  · rw [hs']
    have hsets := h1.tasks.trans h2.tasks (by cases clear <;> rfl)
    exact hsets
  · rw [hs']
    rw [id_moved]
    exact congrArg (· ++ _) (h2.events.trans h1.events)
  · rw [h2.mail.trans h1.mail] at hmail
    exact hmail

theorem commits_advance (task : Task) (expected : Nat) (p : TaskProgress) (event : StoredEvent)
    (confirmation : Option String) (clear : Bool) :
    Commits (advanceWithReceipt task expected p event confirmation clear) fun c w result c' => (result = .written (expected + 1) ∧
      Advances w c' task expected p event confirmation clear) ∨
      result.isWritten = false ∧ c' = c := by
  have hrest : ∀ result : CasResult, Commits (if result.isWritten then do
        writes task p event confirmation clear
        Tx.commit diskError
        pure result
      else pure result : Transaction CasResult) fun c w out c' => out = result ∧
        (if result.isWritten then
          ∀ (r : Row) (version : Nat), w.tasks.get task.id = some (r.write task version) →
            Completes w c' (moved r task version p clear) event confirmation
        else c' = c) := by
    intro result
    cases result with
    | conflict v => exact commits_pure
    | written v =>
      refine (moves_writes.commits fun _ => commits_commit).mono ?_
      rintro c w out c' ⟨_, w1, h, rfl, rfl⟩
      exact ⟨rfl, h⟩
  refine (moves_compareAndSwap.commits hrest).mono ?_
  rintro c w out c' ⟨result, w1, ⟨r, hr, hv, rfl, hw⟩ | ⟨hno, rfl⟩, rfl, h⟩
  · have hc : Completes w1 c' (moved r task (expected + 1) p clear) event confirmation := h r _ hw.tasks.self
    refine Or.inl ⟨rfl, r, hr, hv, hw.tasks.trans hc.tasks (id_moved.trans rfl), ?_, ?_⟩
    · rw [hc.events, hw.events]
    · rw [← hw.mail]
      exact hc.mail
  · rw [if_neg (by rw [hno]; exact Bool.false_ne_true)] at h
    exact Or.inr ⟨hno, h⟩

/-- An advance goes through and writes all of it, or it writes nothing. -/
theorem transact_advance (task : Task) (expected : Nat) (p : TaskProgress) (event : StoredEvent)
    (confirmation : Option String) (clear : Bool) (fault : Option Nat) (db : Db) :
    (∃ db', transact (advanceWithReceipt task expected p event confirmation clear) fault db =
        (.ok (.written (expected + 1)), db') ∧
      Advances db db' task expected p event confirmation clear) ∨
    ∃ result, transact (advanceWithReceipt task expected p event confirmation clear) fault db =
      (result, db) ∧ ∀ version, result ≠ .ok (.written version) := by
  rcases (commits_advance task expected p event confirmation clear).transact fault db with
    ⟨result, db', h, ⟨rfl, hadv⟩ | ⟨hno, rfl⟩⟩ | ⟨e, h⟩
  · exact Or.inl ⟨db', h, hadv⟩
  · refine Or.inr ⟨_, h, fun version hv => ?_⟩
    rw [Except.ok.inj hv] at hno
    cases hno
  · exact Or.inr ⟨_, h, fun _ => nofun⟩

/-- Comparing the version alone writes the row or nothing. -/
theorem transact_compareAndSwap (task : Task) (expected : Nat) (fault : Option Nat) (db : Db) :
    (∃ r, db.tasks.get task.id = some r ∧ r.version = expected ∧
      Sets db (transact (compareAndSwapTask task expected) fault db).2
        (r.write task (expected + 1))) ∨
    (transact (compareAndSwapTask task expected) fault db).2 = db := by
  have hrest : ∀ result : CasResult, Commits (if result.isWritten then do
        Tx.commit diskError
        pure result
      else pure result : Transaction CasResult) fun c w _ c' =>
        if result.isWritten then c' = w else c' = c := by
    intro result
    cases result with
    | conflict v => exact commits_pure.mono fun _ _ _ _ h => h.2
    | written v => exact commits_commit.mono fun _ _ _ _ h => h.2
  rcases (moves_compareAndSwap.commits hrest).transact fault db with
    ⟨_, db', h, result, w1, ⟨r, hr, hv, rfl, hw⟩ | ⟨hno, rfl⟩, hc⟩ | ⟨e, h⟩
  · have hc : db' = w1 := hc
    refine Or.inl ⟨r, hr, hv, ?_⟩
    rw [compareAndSwapTask, h, hc]
    exact hw.tasks
  · rw [if_neg (by rw [hno]; exact Bool.false_ne_true)] at hc
    refine Or.inr ?_
    rw [compareAndSwapTask, h, hc]
  · refine Or.inr ?_
    rw [compareAndSwapTask, h]

theorem moves_insert : Moves (insert task) fun db _ db' =>
    db.tasks.get task.id = none ∧ db' = putRow db (newRow task) := by
  unfold insert
  refine moves_statement.mono fun s a s' h => ?_
  obtain ⟨_, -, h⟩ := bind_eq_ok.mp h
  obtain ⟨hnone, h⟩ := require_bind_eq_ok.mp h
  exact ⟨Option.isNone_iff_eq_none.mp hnone, (Prod.mk.inj (Except.ok.inj h)).2.symm⟩

theorem transact_createTask (task : Task) (fault : Option Nat) (db : Db) :
    db.tasks.get task.id = none ∧
      Sets db (transact (createTask task) fault db).2 (newRow task) ∨
    (transact (createTask task) fault db).2 = db := by
  have hcommits : Commits (createTask task) _ := moves_insert.commits fun _ => commits_commit
  rcases hcommits.transact fault db with
    ⟨_, db', h, _, w1, ⟨hnone, rfl⟩, -, rfl⟩ | ⟨e, h⟩
  · refine Or.inl ⟨hnone, ?_⟩
    rw [h]
    exact sets_putRow db _
  · refine Or.inr ?_
    rw [h]

/-- The second statement of `createPipelineTask`. -/
theorem moves_stageEntry {p : PipelineText} {now : Nat} :
    Moves (statement fun db : Db => do
      let now ← toI64 now "stage entry"
      match db.tasks.get task.id with
      | some r => .ok ((), putRow db { r with pipeline := some p, stageEnteredAtUnixMs := now })
      | none => .ok ((), db)) fun db _ db' => ∀ r, db.tasks.get task.id = some r →
        Sets db db' { r with pipeline := some p, stageEnteredAtUnixMs := now } := by
  refine moves_statement.mono fun s a s' h => ?_
  intro r hr
  obtain ⟨now', hnow, h⟩ := bind_eq_ok.mp h
  rw [hr, toI64_eq_ok hnow] at h
  obtain ⟨-, rfl⟩ := Prod.mk.inj (Except.ok.inj h)
  exact sets_putRow s _

theorem transact_createPipelineTask (task : Task) (p : PipelineText) (now : Nat)
    (fault : Option Nat) (db : Db) :
    db.tasks.get task.id = none ∧ Sets db (transact (createPipelineTask task p now) fault db).2
        { newRow task with pipeline := some p, stageEnteredAtUnixMs := now } ∨
    (transact (createPipelineTask task p now) fault db).2 = db := by
  have hcommits : Commits (createPipelineTask task p now) _ :=
    moves_insert.commits fun _ => moves_stageEntry.commits fun _ => commits_commit
  rcases hcommits.transact fault db with
    ⟨_, db', h, _, w1, ⟨hnone, rfl⟩, _, w2, hs, -, rfl⟩ | ⟨e, h⟩
  · refine Or.inl ⟨hnone, ?_⟩
    rw [h]
    have hput := sets_putRow db (newRow task)
    exact hput.trans (hs _ hput.self) rfl
  · refine Or.inr ?_
    rw [h]

theorem transact_taskNote (id : String) (block attention : Option String) (ack : Bool)
    (fault : Option Nat) (db : Db) :
    (∃ r, db.tasks.get id = some r ∧
      Sets db (transact (taskNote id block attention ack) fault db).2
        (r.note block attention ack)) ∨
    (transact (taskNote id block attention ack) fault db).2 = db := by
  have hcommits : Commits (taskNote id block attention ack) _ :=
    moves_statement.commits fun _ => commits_commit
  rcases hcommits.transact fault db with ⟨_, db', h, _, w1, hs, -, rfl⟩ | ⟨e, h⟩
  · rw [h]
    cases hr : db.tasks.get id with
    | none =>
      rw [hr] at hs
      exact Or.inr (Prod.mk.inj (Except.ok.inj hs)).2.symm
    | some r =>
      rw [hr] at hs
      obtain ⟨-, rfl⟩ := Prod.mk.inj (Except.ok.inj hs)
      exact Or.inl ⟨r, rfl, sets_putRow db _⟩
  · refine Or.inr ?_
    rw [h]

end Agend.Tasks
