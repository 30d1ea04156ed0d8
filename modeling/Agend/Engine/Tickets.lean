import Agend.Engine.Commands
import Agend.Pipeline.Outstanding

/-! A ticket names one attempt of one stage of one task, and a dispatch id one ticket. What a task
is told under one ticket stays the same, but for the head of its branch at a work stage. -/
namespace Agend.Engine

open Agend.Pipeline Agend.Runtime PipelineState

/-- Task and instance ids have no slash. -/
def Plain (name : String) : Prop := '/' ∉ name.toList

theorem plain_toString (n : Nat) : Plain (toString n) := by
  intro h
  rw [Nat.toString_eq_repr, Nat.toList_repr] at h
  have := Nat.isDigit_of_mem_toDigits (by decide) (by decide) h
  simp at this

theorem toString_nat_inj {n m : Nat} (h : toString n = toString m) : n = m := by
  simp only [Nat.toString_eq_repr] at h
  have := congrArg (fun s => Nat.ofDigitChars 10 s.toList 0) h
  simpa using this

theorem plain_of_validateId {id : String} (h : Runtime.validateId id = true) : Plain id := by
  simp only [Runtime.validateId, Bool.and_eq_true, List.all_eq_true] at h
  intro hs
  have := h.2 _ hs
  simp at this

/-- What stands before a first separator and what stands after it. -/
theorem cut_inj {c : Char} {a b x y : List Char} (ha : c ∉ a) (hb : c ∉ b)
    (h : a ++ c :: x = b ++ c :: y) : a = b ∧ x = y := by
  induction a generalizing b with
  | nil =>
    cases b with
    | nil => simpa using h
    | cons d b =>
      obtain ⟨rfl, -⟩ := List.cons.inj h
      exact absurd List.mem_cons_self hb
  | cons d a ih =>
    cases b with
    | nil =>
      obtain ⟨rfl, -⟩ := List.cons.inj h
      exact absurd List.mem_cons_self ha
    | cons d' b =>
      obtain ⟨rfl, hrest⟩ := List.cons.inj h
      obtain ⟨rfl, rfl⟩ := ih (fun hm => ha (List.mem_cons_of_mem _ hm))
        (fun hm => hb (List.mem_cons_of_mem _ hm)) hrest
      exact ⟨rfl, rfl⟩

theorem slash_inj {a b x y : String} (ha : Plain a) (hb : Plain b)
    (h : a ++ "/" ++ x = b ++ "/" ++ y) : a = b ∧ x = y := by
  have hl : a.toList ++ '/' :: x.toList = b.toList ++ '/' :: y.toList := by
    simpa using congrArg String.toList h
  obtain ⟨h1, h2⟩ := cut_inj ha hb hl
  exact ⟨String.toList_inj.mp h1, String.toList_inj.mp h2⟩

theorem slash_inj_last {a b x y : String} (hx : Plain x) (hy : Plain y)
    (h : a ++ "/" ++ x = b ++ "/" ++ y) : a = b ∧ x = y := by
  have hl : x.toList.reverse ++ '/' :: a.toList.reverse =
      y.toList.reverse ++ '/' :: b.toList.reverse := by
    simpa using congrArg (fun s => s.toList.reverse) h
  obtain ⟨h1, h2⟩ := cut_inj (by simpa [Plain] using hx) (by simpa [Plain] using hy) hl
  exact ⟨String.toList_inj.mp (List.reverse_injective h2),
    String.toList_inj.mp (List.reverse_injective h1)⟩

section ids

variable {t t' stage stage' i i' : String} {n n' : Nat}

theorem ticketOf_inj (ht : Plain t) (ht' : Plain t')
    (h : ticketOf t stage n = ticketOf t' stage' n') : t = t' ∧ stage = stage' ∧ n = n' := by
  obtain ⟨h, hn⟩ := slash_inj_last (plain_toString n) (plain_toString n') h
  obtain ⟨ht, hs⟩ := slash_inj ht ht' h
  exact ⟨ht, hs, toString_nat_inj hn⟩

theorem dispatchId_work_inj (ht : Plain t) (ht' : Plain t')
    (h : dispatchId (ticketOf t stage n) false i = dispatchId (ticketOf t' stage' n') false i') :
    t = t' ∧ stage = stage' ∧ n = n' :=
  ticketOf_inj ht ht' (String.append_right_inj _ |>.mp h)

theorem dispatchId_review_inj (ht : Plain t) (ht' : Plain t') (hi : Plain i) (hi' : Plain i')
    (h : dispatchId (ticketOf t stage n) true i = dispatchId (ticketOf t' stage' n') true i') :
    t = t' ∧ stage = stage' ∧ n = n' ∧ i = i' := by
  obtain ⟨hcut, rfl⟩ := slash_inj_last hi hi' h
  obtain ⟨h1, h2, h3⟩ := ticketOf_inj ht ht' (String.append_right_inj _ |>.mp hcut)
  exact ⟨h1, h2, h3, rfl⟩

/-- Work and a review are only told apart by the names of stages and instances. -/
theorem dispatchId_clash (ht : Plain t) (ht' : Plain t') (hi' : Plain i')
    (h : dispatchId (ticketOf t stage n) false i = dispatchId (ticketOf t' stage' n') true i') :
    t = t' ∧ stage = stage' ++ "/" ++ toString n' ∧ i' = toString n := by
  have h : ticketOf t stage n = ticketOf t' stage' n' ++ "/" ++ i' := by
    refine String.append_right_inj "dispatch:" |>.mp ?_
    simpa [dispatchId, String.append_assoc] using h
  obtain ⟨h, hi⟩ := slash_inj_last (plain_toString n) hi' h
  have h : t ++ "/" ++ stage = t' ++ "/" ++ (stage' ++ "/" ++ toString n') := by
    simpa [ticketOf, String.append_assoc] using h
  obtain ⟨h1, h2⟩ := slash_inj ht ht' h
  exact ⟨h1, h2, hi.symm⟩

end ids

/-- What a task is told at either state differs in the head of its branch at most. -/
structure Alike (s0 s : PipelineState) : Prop where
  taskId : s0.taskId = s.taskId
  workflow : s0.workflow = s.workflow
  stageIndex : s0.stageIndex = s.stageIndex
  attempt : s0.attempt = s.attempt
  reason : s0.pendingWorkReason = s.pendingWorkReason
  product : s0.workProduct.map (WorkProduct.withHead "" "") =
    s.workProduct.map (WorkProduct.withHead "" "")

/-- Nothing a task is told differs. -/
structure Same (s0 s : PipelineState) : Prop extends Alike s0 s where
  workProduct : s0.workProduct = s.workProduct
  currentHead : s0.currentHead = s.currentHead

theorem Alike.refl (s : PipelineState) : Alike s s := ⟨rfl, rfl, rfl, rfl, rfl, rfl⟩

theorem Same.refl (s : PipelineState) : Same s s := ⟨.refl s, rfl, rfl⟩

theorem Alike.trans {s0 s1 s2 : PipelineState} (h : Alike s0 s1) (h' : Alike s1 s2) :
    Alike s0 s2 where
  taskId := h.taskId.trans h'.taskId
  workflow := h.workflow.trans h'.workflow
  stageIndex := h.stageIndex.trans h'.stageIndex
  attempt := h.attempt.trans h'.attempt
  reason := h.reason.trans h'.reason
  product := h.product.trans h'.product

theorem Same.trans {s0 s1 s2 : PipelineState} (h : Same s0 s1) (h' : Same s1 s2) :
    Same s0 s2 :=
  ⟨h.toAlike.trans h'.toAlike, h.workProduct.trans h'.workProduct,
    h.currentHead.trans h'.currentHead⟩

variable {s s' : PipelineState} {e : PipelineEvent} {A : List PipelineAction} {t : String}
  {v : ValidatedWorkflow}

theorem withHead_withHead (p : WorkProduct) (head patch head' patch' : String) :
    WorkProduct.withHead head' patch' (WorkProduct.withHead head patch p) =
      WorkProduct.withHead head' patch' p := by
  cases p <;> rfl

theorem alike_of_newHead {change : PendingHeadChange} (hn : NewHead s change s') : Alike s s' := by
  have hf := hn.frame
  have hp : s'.workProduct = s.workProduct.map (WorkProduct.withHead change.head change.patchId) := by
    cases hn with
    | fresh => rfl
    | kept hc => rw [hc]; rfl
  refine ⟨hf.taskId.symm, hf.workflow.symm, hf.stageIndex.symm, ?_, hf.pendingWorkReason.symm, ?_⟩
  · rw [PipelineState.attempt, PipelineState.attempt, hf.attempts, hf.stageIndex]
  · rw [hp, Option.map_map]
    congr 1
    funext p
    exact (withHead_withHead p _ _ _ _).symm

/-- A task that keeps its ticket is told the same, but for a new head at work or a submit. -/
theorem alike_of_step (hi : Invariant t v s) (hs : step s e = .ok (s', A)) (hl : s'.Live)
    (hsame : (s'.stageIndex, s'.attempt) = (s.stageIndex, s.attempt)) :
    s.status = .running ∧ Alike s s' ∧ (s.workflow.At s.stageIndex (·.isKind .approval) →
      Same s s') := by
  have he := (step_eq_ok_iff.mp hs).effect hi.sound hi.inv
  have asked : ∀ {B : List PipelineAction}, Asked s s' B → False := fun h => h.ne hsame
  cases he with
  | begun hp he => exact (asked (he.sent hi.sound hl hi.inv.records rfl rfl)).elim
  | advanced hc hsu hm hf hn he =>
    exact (asked (he.sent (hf.workflow ▸ hi.sound) hl hi.inv.records hf.attempts
      hf.notifiedTimeout)).elim
  | counted hc hk hr hrev hpick =>
    obtain ⟨pick, heq⟩ := hpick
    have hsm : Same s s' := by
      rw [heq]
      exact ⟨⟨rfl, rfl, rfl, rfl, rfl, rfl⟩, rfl, rfl⟩
    exact ⟨hc.running, hsm.toAlike, fun _ => hsm⟩
  | @noted _ changes hr =>
    have hsm : Same s { s with pendingHeadChanges := changes } :=
      ⟨⟨rfl, rfl, rfl, rfl, rfl, rfl⟩, rfl, rfl⟩
    exact ⟨hr, hsm.toAlike, fun _ => hsm⟩
  | headMoved hev hr hf hm =>
    refine ⟨hr, ?_⟩
    rcases hm.outstanding hi.sound (hi.inv.live_of_running hr) hl with ha | ⟨rfl, -⟩
    · exact (asked ha).elim
    · cases hm with
      | ignored => exact ⟨.refl s, fun _ => .refl s⟩
      | recorded hn hk =>
        refine ⟨alike_of_newHead hn, fun happ => ?_⟩
        obtain ⟨st, hst, ha⟩ := happ
        rw [Workflow.at_iff hst, Workflow.at_iff hst] at hk
        rcases hk with hk | hk <;> cases WorkflowStage.isKind_unique ha hk
      | rechecked _ _ _ _ _ he => exact absurd rfl he.ne_nil
  | failed hc hfa hf hm =>
    cases hm with
    | returned hfs htarget ht hst hstw =>
      exact (asked (asked_returned hi.sound hl hi.inv.records rfl rfl hst hstw)).elim
    | failed => cases hl.running
  | notified hc =>
    have hsm : Same s { s with notifiedTimeout := some (s.stageIndex, s.attempt) } :=
      ⟨⟨rfl, rfl, rfl, rfl, rfl, rfl⟩, rfl, rfl⟩
    exact ⟨hc.running, hsm.toAlike, fun _ => hsm⟩
  | reassigned hc hf ha he =>
    exact (asked (he.sent hi.sound hl hi.inv.records rfl rfl)).elim
  | mergeFailed hc hst hm =>
    exact (asked (hm.asked hi.sound (hi.inv.live_of_running hc.running)
      ⟨_, hc.stage, WorkflowStage.isKind_merge_iff.mpr hst⟩ hl)).elim
  | ended _ _ ht =>
    rw [hl.running] at ht
    cases ht

/-- The role work is asked of. -/
def workRole : PipelineAction → Option String
  | .assignWork _ _ role | .returnToWork _ _ role _ => some role
  | _ => none

/-- Actions of one batch: one dispatch at most, for the stage the task is at. -/
structure Batch (s : PipelineState) (A : List PipelineAction) : Prop where
  alone : A.Pairwise fun a b => dispatches a = true → dispatches b = false
  live : ∀ a ∈ A, dispatches a = true → s.Live
  work : ∀ a ∈ A, ∀ role, workRole a = some role → ∃ st text output,
    s.currentStage = some st ∧ st.stage = .work role text output

theorem identity_of_dispatches {a : PipelineAction} (h : dispatches a = true) :
    a.identity ≠ none := by
  cases a <;> simp [dispatches, PipelineAction.identity] at h ⊢

theorem batch_of_silent (h : ∀ a ∈ A, a.identity = none) : Batch s A := by
  have hno : ∀ a ∈ A, dispatches a = false := by
    intro a ha
    rw [Bool.eq_false_iff]
    exact fun hd => identity_of_dispatches hd (h a ha)
  refine ⟨List.pairwise_of_forall_mem_list fun a ha b hb _ => hno b hb, fun a ha hd => ?_,
    fun a ha role hw => ?_⟩
  · rw [hno a ha] at hd
    cases hd
  · have := hno a ha
    cases a <;> simp_all [dispatches, workRole]

/-- Work is asked for at a work stage only, in its role. -/
theorem work_of_requestOf {i n : Nat} {st : WorkflowStage} {action : PipelineAction}
    {reason : Option String} {role : String} (h : s.requestOf i st n = some action)
    (hw : workRole (withReason reason action) = some role) :
    ∃ text output, st.stage = .work role text output := by
  have hwork : workRole action = some role := by
    revert hw
    unfold withReason
    split
    · exact id
    · exact id
  cases hst : st.stage with
  | work role' text output =>
    simp only [requestOf, hst, Option.some.injEq] at h
    subst h
    cases hwork
    exact ⟨text, output, rfl⟩
  | command command =>
    simp only [requestOf, hst] at h
    split at h <;> cases h
    cases hwork
  | merge =>
    simp only [requestOf, hst, Option.map_eq_some_iff] at h
    obtain ⟨head, -, rfl⟩ := h
    cases hwork
  | submit | approval | fanout =>
    simp only [requestOf, hst, Option.some.injEq] at h
    subst h
    cases hwork

theorem batch_outstanding (so : s.workflow.Sound) (h : s.Live) : Batch s s.outstandingActions := by
  obtain ⟨st, hst⟩ := h.stage
  obtain ⟨action, hreq⟩ := h.exists_request so hst s.attempt
  refine ⟨?_, fun _ _ _ => h, fun a ha role hw => ?_⟩
  · rw [h.outstandingActions_eq so hst hreq]
    split_ifs
    · simp
    · simp [dispatches, scheduleFor]
  · obtain ⟨st', action', hst', hreq', rfl | rfl⟩ := h.exists_requestOf so ha
    · cases hw
    · obtain ⟨text, output, hstage⟩ := work_of_requestOf hreq' hw
      exact ⟨st', text, output, hst', hstage⟩

theorem batch_outstandingActions (hi : Invariant t v s) : Batch s s.outstandingActions := by
  by_cases hr : s.status = .running
  · exact batch_outstanding hi.sound (hi.inv.live_of_running hr)
  · rw [outstandingActions, if_pos hr]
    exact batch_of_silent (by simp)

theorem Batch.append {notices : List PipelineAction} (h : Batch s A)
    (hn : ∀ a ∈ notices, a.isNotice = true) : Batch s (notices ++ A) := by
  have hno := batch_of_silent (s := s) fun a ha => PipelineAction.identity_of_isNotice (hn a ha)
  have hsilent : ∀ a ∈ notices, dispatches a = false := by
    intro a ha
    have := hn a ha
    cases a <;> simp_all [dispatches, PipelineAction.isNotice]
  refine ⟨List.pairwise_append.mpr ⟨hno.alone, h.alone, fun a ha b _ hd => ?_⟩,
    fun a ha hd => ?_, fun a ha role hw => ?_⟩
  · rw [hsilent a ha] at hd
    cases hd
  · exact (List.mem_append.mp ha).elim (fun h' => hno.live a h' hd) fun h' => h.live a h' hd
  · exact (List.mem_append.mp ha).elim (fun h' => hno.work a h' role hw) fun h' =>
      h.work a h' role hw

/-- The actions of a step dispatch once at most, and only under a ticket it has opened. -/
theorem batch_of_step (hi : Invariant t v s) (hs : step s e = .ok (s', A)) :
    Batch s' A ∧ ∀ a ∈ A, dispatches a = true →
      s.attempts.getD s'.stageIndex 0 < s'.attempt := by
  have he := (step_eq_ok_iff.mp hs).effect hi.sound hi.inv
  have hi' := hi.step hs
  by_cases hr : s'.status = .running
  · have hl := hi'.inv.live_of_running hr
    cases he.requests hi.sound hi.inv hl with
    | asked notices B hA hn hm ha =>
      refine ⟨?_, fun _ _ _ => ha.opened⟩
      rw [hA, ha.sent]
      exact (batch_outstanding hi'.sound hl).append hn
    | kept hA =>
      rw [hA]
      exact ⟨batch_of_silent (by simp), by simp⟩
    | reported st hA =>
      exact ⟨batch_of_silent hA, fun a ha hd => absurd (hA a ha) (identity_of_dispatches hd)⟩
  · have hA := he.silent hi.sound hi.inv hr
    exact ⟨batch_of_silent hA, fun a ha hd => absurd (hA a ha) (identity_of_dispatches hd)⟩

/-- A ticket that was used before is the current one after a step only if it was before it. -/
theorem current_of_step (hi : Invariant t v s) (hs : step s e = .ok (s', A))
    (hr : s'.status = .running) {i n : Nat} (hn : n ≤ s.attempts.getD i 0)
    (hc : (s'.stageIndex, s'.attempt) = (i, n)) : (s.stageIndex, s.attempt) = (i, n) := by
  have hlater := ((step_eq_ok_iff.mp hs).effect hi.sound hi.inv).later hi.sound hi.inv
  obtain ⟨rfl, rfl⟩ := Prod.mk.inj hc
  rcases hlater.opened hr with ⟨hidx, hatt⟩ | hlt
  · rw [attempt, attempt, hidx, hatt]
  · omega

/-- The head a task is told of. -/
def namedHead (s : PipelineState) : Option String :=
  match s.workProduct with
  | some (.branch _ head _) => some (s.currentHead.getD head)
  | _ => none

/-- The message of a dispatch. -/
def dispatchOf (home : String) (repo : Option String) (task : Task) (s : PipelineState)
    (review : Bool) (instanceId : String) : NewMessage :=
  ⟨dispatchId (ticket s) review instanceId, "daemon", instanceId, some task.id,
    dispatchBody (worktreeOf home repo task s review instanceId) task s review, .queue⟩

theorem Alike.currentStage {s0 : PipelineState} (h : Alike s0 s) :
    s0.currentStage = s.currentStage := by
  rw [PipelineState.currentStage, PipelineState.currentStage, h.workflow, h.stageIndex]

theorem Alike.ticket {s0 : PipelineState} (h : Alike s0 s) : ticket s0 = ticket s := by
  rw [Engine.ticket, Engine.ticket, h.taskId, h.currentStage, h.attempt]

theorem Alike.workProduct {s0 : PipelineState} (h : Alike s0 s)
    (hh : namedHead s0 = namedHead s) : workProduct s0 = workProduct s := by
  have hp := h.product
  simp only [namedHead, Engine.workProduct] at hh ⊢
  rcases h0 : s0.workProduct with _ | _ | _ | _ <;> rcases h1 : s.workProduct with _ | _ | _ | _ <;>
    simp_all [WorkProduct.withHead]

theorem Alike.instructionsOf {s0 : PipelineState} (h : Alike s0 s) :
    instructionsOf s0 = instructionsOf s := by
  rw [Engine.instructionsOf, Engine.instructionsOf, h.currentStage]

theorem Alike.nextCommand {s0 : PipelineState} (h : Alike s0 s) (review : Bool) :
    nextCommand s0 review = nextCommand s review := by
  rw [Engine.nextCommand, Engine.nextCommand, h.currentStage]

/-- What is said of the work is all that may differ. -/
theorem Alike.dispatchBody_iff {s0 : PipelineState} (h : Alike s0 s) (worktree : String)
    (task : Task) (review : Bool) :
    dispatchBody worktree task s0 review = dispatchBody worktree task s review ↔
      Engine.workProduct s0 = Engine.workProduct s := by
  unfold Engine.dispatchBody
  rw [h.ticket, h.instructionsOf, h.nextCommand, h.reason]
  simp only [String.append_left_inj, String.append_right_inj]

theorem Alike.dispatchBody {s0 : PipelineState} (h : Alike s0 s)
    (hh : namedHead s0 = namedHead s) (worktree : String) (task : Task) (review : Bool) :
    dispatchBody worktree task s0 review = dispatchBody worktree task s review :=
  (h.dispatchBody_iff worktree task review).mpr (h.workProduct hh)

/-- The same work is described by the same message. -/
theorem Alike.dispatchOf {s0 : PipelineState} (h : Alike s0 s)
    (hh : namedHead s0 = namedHead s) (home : String) (repo : Option String) (task : Task)
    (i : String) :
    Engine.dispatchOf home repo task s0 false i = Engine.dispatchOf home repo task s false i := by
  have hw : worktreeOf home repo task s0 false i = worktreeOf home repo task s false i := by
    simp only [worktreeOf, Bool.not_false, Bool.true_or]
  unfold Engine.dispatchOf
  rw [h.ticket, hw, h.dispatchBody hh]

/-- So is the same review. -/
theorem Same.dispatchOf {s0 : PipelineState} (h : Same s0 s) (home : String)
    (repo : Option String) (task : Task) (review : Bool) (i : String) :
    Engine.dispatchOf home repo task s0 review i = Engine.dispatchOf home repo task s review i := by
  have hh : namedHead s0 = namedHead s := by
    rw [namedHead, namedHead, h.workProduct, h.currentHead]
  have hw : worktreeOf home repo task s0 review i = worktreeOf home repo task s review i := by
    rw [worktreeOf, worktreeOf, h.currentHead]
  unfold Engine.dispatchOf
  rw [h.toAlike.ticket, hw, h.toAlike.dispatchBody hh]

/-- Of the task a dispatch names its id and its title. -/
theorem dispatchOf_congr {task task' : Task} (hid : task.id = task'.id)
    (ht : task.title = task'.title) (home : String) (repo : Option String) (s : PipelineState)
    (review : Bool) (i : String) :
    dispatchOf home repo task s review i = dispatchOf home repo task' s review i := by
  have hw : worktreeOf home repo task s review i = worktreeOf home repo task' s review i := by
    rw [worktreeOf, worktreeOf, hid]
  have hb : ∀ worktree, dispatchBody worktree task s review = dispatchBody worktree task' s review := by
    intro worktree
    unfold dispatchBody
    rw [ht]
  unfold dispatchOf
  rw [hw, hid, hb]

end Agend.Engine
