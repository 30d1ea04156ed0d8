import Agend.Engine.Stepping
import Agend.Pipeline.Errors

/-! What the daemon accepts it carries out: its own rules leave nothing in a workflow that the
pipeline would ask for and the engine could not do, and no approval that its requests could not
give. -/
namespace Agend.Engine

open Agend.Library Agend.Pipeline Agend.Runtime PipelineState

variable {s s' s1 : PipelineState} {e : PipelineEvent} {A : List PipelineAction} {i n : Nat}
  {a : PipelineAction} {wf : Workflow} {v : ValidatedWorkflow} {st : WorkflowStage}

/-! Notices come with fanouts and reassigned stages only. -/

theorem notNotice_of_entry (he : Entry s i s' A) (ha : a ∈ A) : a.isNotice = false := by
  cases he with
  | asked hs hm hreq =>
    rcases List.mem_cons.mp ha with rfl | ha
    · rfl
    · rw [List.mem_singleton.mp ha]
      exact (requestOf_isRequest hreq).2
  | unexpanded =>
    rw [List.mem_singleton.mp ha]
    rfl
  | finished =>
    rw [List.mem_singleton.mp ha]
    rfl

theorem notNotice_of_headMove {change : PendingHeadChange} (hm : HeadMove s change s' A)
    (ha : a ∈ A) : a.isNotice = false := by
  cases hm with
  | ignored => cases ha
  | recorded => cases ha
  | rechecked _ _ _ _ _ he => exact notNotice_of_entry he ha
  | returned =>
    rcases List.mem_pair.mp ha with rfl | rfl <;> rfl

theorem notNotice_of_failMove {reason : String} (hm : FailMove s reason s' A) (ha : a ∈ A) :
    a.isNotice = false := by
  cases hm with
  | returned =>
    rcases List.mem_pair.mp ha with rfl | rfl <;> rfl
  | failed =>
    rw [List.mem_singleton.mp ha]
    rfl

theorem notNotice_of_mergeBack (so : s.workflow.Sound) (h : s.Live) (hm : MergeBack s s' A)
    (ha : a ∈ A) : a.isNotice = false := by
  cases hm with
  | repeated _ _ he => exact notNotice_of_entry he ha
  | moved hf happ =>
    -- Each pending change replaces the actions of the one before it, or adds none.
    obtain ⟨s1, B, heq, -, -, -, hP⟩ := applyPending_rule
      (s := { s with pendingHeadChanges := [] })
      (P := fun _ last => ∀ a ∈ last, a.isNotice = false) (by
      intro s1 s2 change last A _ _ _ hmv hlast
      split_ifs
      · exact hlast
      · exact fun a ha => notNotice_of_headMove hmv ha) so (.live h.clearPending) rfl
      s.pendingHeadChanges [] (by simp)
    rw [heq] at happ
    cases happ
    exact hP a ha

/-! The daemon's own rules. -/

/-- No stage fans out or is reassigned, and a human approval needs one approval. -/
structure Supported (w : Workflow) : Prop where
  fanout : ∀ st ∈ w.stages, st.isKind .fanout = false
  reassign : ∀ st ∈ w.stages, st.effectiveTimeoutAction ≠ .reassign
  human : ∀ st ∈ w.stages, ∀ count bound, st.stage = .approval .human count bound → count = 1

theorem supported_of_validate (h : validate wf = .ok v) : Supported v.workflow := by
  have hw : v.workflow = wf := validate_eq_ok h
  unfold validate at h
  split at h
  · cases h
  · rename_i hnone
    have hno : ∀ st ∈ wf.stages, unsupported st = none := List.findSome?_eq_none_iff.mp hnone
    rw [hw]
    refine ⟨fun st hst => ?_, fun st hst => ?_, fun st hst count bound hs => ?_⟩
    · have h := hno st hst
      unfold unsupported at h
      rw [WorkflowStage.isKind]
      cases hs : st.stage <;> simp [hs, Stage.kind] at h ⊢
    · have h := hno st hst
      unfold unsupported at h
      rw [WorkflowStage.effectiveTimeoutAction]
      intro hre
      have hon : st.onTimeout = some .reassign := by
        cases hon : st.onTimeout <;> rw [hon] at hre
        · cases hre
        · exact congrArg some hre
      simp only [hon, if_true] at h
      split at h
      · split_ifs at h
      all_goals cases h
    · have h := hno st hst
      unfold unsupported at h
      rw [hs] at h
      by_contra hne
      simp [hne] at h

/-- No approval chooses a child. -/
theorem Supported.picks (h : Supported s.workflow) (so : s.workflow.Sound) (i : Nat) :
    s.workflow.picks i = false := by
  rw [Bool.eq_false_iff]
  intro hp
  obtain ⟨f, ⟨st, hst, hpick⟩, -⟩ := so.toShape.picks_iff.mp hp
  have hno := h.fanout st (List.mem_of_getElem? hst)
  rw [WorkflowStage.isKind_fanout_of_isPickFanout hpick] at hno
  cases hno

/-- Without fanouts and reassigned stages nothing but requests and results is sent. -/
theorem notNotice_of_accepted (hsup : Supported s.workflow) (so : s.workflow.Sound) (h : s.Inv)
    (ha : Accepted s e s' A) (hmem : a ∈ A) : a.isNotice = false := by
  have noFanout : ∀ {st : WorkflowStage} {id : String} {n : Nat} {source : FanoutSource}
      {join : FanoutJoin}, Current s st id n → st.stage ≠ .fanout source join := by
    intro st id n source join hc hst
    have hno := hsup.fanout st (List.mem_of_getElem? hc.stage)
    rw [WorkflowStage.isKind_fanout_iff.mpr ⟨_, _, hst⟩] at hno
    cases hno
  cases ha with
  | start _ _ he | workCompleted _ _ _ he | submitted _ _ he | commandPassed _ _ he =>
    exact notNotice_of_entry (enterStage_eq_ok_iff.mp he) hmem
  | approvalMet hc hst hb hr hp hge he =>
    rcases completeApproval_eq_ok he with ⟨-, hE⟩ | ⟨_, _, hpick, -⟩
    · exact notNotice_of_entry (enterStage_eq_ok_iff.mp hE) hmem
    · have hfr := frame_choosePick hp
      have hno := hsup.picks so s.stageIndex
      rw [show _ = s.workflow from hfr.workflow, show _ = s.stageIndex from hfr.stageIndex, hno]
        at hpick
      cases hpick
  | fanoutCompleted hc hst | fanoutFirst hc hst => exact absurd hst (noFanout hc)
  | commandFailed hc _ _ he | changesRequested hc _ _ he | stageFailed hc _ he =>
    exact notNotice_of_failMove ((h.live_of_running hc.running).failMove so he) hmem
  | approvalCounted | commitKnown | commitDeferred | advanceDeferred => cases hmem
  | commitCreated hr hs hf hw hh he | mainAdvanced hr hs hf hw he =>
    exact notNotice_of_headMove ((h.live_of_running hr).headMove so he) hmem
  | timeoutReassigned hc hf hac =>
    exact absurd hac (hsup.reassign _ (List.mem_of_getElem? hc.stage))
  | mergeFailed hc hst hh he =>
    have hl := h.live_of_running hc.running
    have hm := hl.mergeBack so ⟨_, hc.stage, WorkflowStage.isKind_merge_iff.mpr hst⟩ he
    exact notNotice_of_mergeBack so hl hm.2.2 hmem
  | timeoutNotified | timeoutCancelled | cancelledPending | cancelledRunning | mergeCompleted =>
    rw [List.mem_singleton.mp hmem]
    rfl

/-! Every action sent or asked for again is executed. -/

/-- The engine has a way to carry the action out. -/
def Executable (a : PipelineAction) : Prop :=
  ∀ task st, action task st a ≠ Program.raise (invalid "unsupported pipeline action")

def isFanout : PipelineAction → Bool
  | .fanout _ _ _ _ _ _ => true
  | _ => false

theorem executable_of_notNotice (hn : a.isNotice = false) (hf : isFanout a = false) :
    Executable a := by
  intro task st h
  cases a with
  | fanout => cases hf
  | cancelFanoutSiblings | reassignStage => cases hn
  | scheduleTimeout | notifyTimeout => cases h
  | requestApproval =>
    rw [action] at h
    split at h <;> cases h
  | taskDone | taskCancelled | taskFailed =>
    rw [action, cleanupTerminal] at h
    split_ifs at h <;> cases h
  | assignWork | returnToWork | submit | runCommand | merge => cases h

theorem Supported.not_fanout (h : Supported s.workflow)
    (hs : s.workflow.stages[i]? = some st) (hreq : s.requestOf i st n = some a) :
    isFanout a = false := by
  have hno := h.fanout st (List.mem_of_getElem? hs)
  unfold requestOf at hreq
  split at hreq
  · cases hreq
    rfl
  · cases hreq
    rfl
  · split at hreq <;> cases hreq
    rfl
  · cases hreq
    rfl
  · obtain ⟨head, -, rfl⟩ := Option.map_eq_some_iff.mp hreq
    rfl
  · rename_i source join hst
    rw [WorkflowStage.isKind_fanout_iff.mpr ⟨source, join, hst⟩] at hno
    cases hno

theorem isFanout_withReason (reason : Option String) : isFanout (withReason reason a) = isFanout a := by
  unfold withReason
  split <;> rfl

theorem Supported.outstanding (h : Supported s.workflow) (so : s.workflow.Sound) (hl : s.Live)
    (ha : a ∈ s.outstandingActions) : a.isNotice = false ∧ isFanout a = false := by
  obtain ⟨st, -, hall⟩ := hl.outstanding_spec so
  obtain ⟨st', action, hs, hreq, rfl | rfl⟩ := hl.exists_requestOf so ha
  · exact ⟨rfl, rfl⟩
  · refine ⟨(hall _ ha).1, ?_⟩
    rw [isFanout_withReason]
    exact h.not_fanout hs hreq

theorem live_of_outstanding (h : s.Inv) (ha : a ∈ s.outstandingActions) : s.Live := by
  by_contra hno
  have hrun : s.status ≠ .running := fun hr => hno (h.live_of_running hr)
  rw [outstandingActions, if_pos hrun] at ha
  cases ha

theorem Supported.sent {id : String} (h : Supported s.workflow) (hi : Invariant id v s)
    (hs : step s e = .ok (s', A)) (ha : a ∈ A) : a.isNotice = false ∧ isFanout a = false := by
  refine ⟨notNotice_of_accepted h hi.sound hi.inv (step_eq_ok_iff.mp hs) ha, ?_⟩
  rw [Bool.eq_false_iff]
  intro hf
  have hid : a.identity ≠ none := by
    cases a with
    | fanout => simp [PipelineAction.identity]
    | _ => cases hf
  obtain ⟨hl, hout⟩ := live_of_request hi hs ha hid
  have hi' := hi.step hs
  have h' : Supported s'.workflow := by
    rw [hi'.workflow, ← hi.workflow]
    exact h
  rw [(h'.outstanding hi'.sound hl hout).2] at hf
  cases hf

/-! Every approval asked for can be given, by requests that the daemon serves. -/

/-- Nothing fails, every instance runs, and the branch is where the approval found it. -/
def Smooth (head : Option String) (_ : World) (c : Call) (a : Answer) : Prop :=
  a.fault = none ∧ a.stopped = [] ∧
    ∀ repo reference, c = .revParse repo reference → head = some a.text

/-- The task runs as it was loaded, in a team with what its workflow needs. -/
structure Awaits (w : World) (l : Loaded) : Prop where
  row : ∃ r, w.row l.state.taskId = some r ∧
    restored l.state.taskId r (w.workflows.get (pinned r.task)) = .ok l
  running : l.task.status = .running
  team : ∃ team, w.teams.get l.task.teamId = some team ∧
    (team.repo.isSome = true → w.git = true) ∧
    (l.state.workflow.requiresRepo = true → team.repo.isSome = true)

/-- A reviewer has the binding that comes with its dispatch; the operator needs none. -/
def Entitled (w : World) (l : Loaded) : Request → Prop
  | .review caller _ _ _ => (w.agents.get caller).isSome = true ∧
      ∃ team status, w.teams.get l.task.teamId = some team ∧ w.bindings.get caller =
        some { reviewBinding w.home team.repo l.task l.state caller with status := status }
  | _ => True

/-- The routine brings about `P`, whatever comes after. -/
def Gets {α : Type} (head : Option String) (P : World → Prop) (p : Routine α) (w : World) : Prop :=
  Reaches (Smooth head) P p (fun _ => P) w

/-- The state is committed. -/
def Saves (s : PipelineState) (w : World) : Prop :=
  ∃ r, w.row s.taskId = some r ∧ r.pipeline = some s.snapshot

/-- Each request commits a state, wherever it is served while the state before is current; the last
is past stage `i`. -/
def Granted (i : Nat) : List Request → PipelineState → Prop
  | [], s => i < s.stageIndex
  | request :: rest, s => ∃ s', s'.taskId = s.taskId ∧
      (∀ w l, Awaits w l → l.state = s → Entitled w l request →
        Gets s.currentHead (Saves s') (serve request) w) ∧
      Granted i rest s'

/-- An approval of the current attempt by an instance. -/
def approving (s : PipelineState) (reviewer : String) : Request :=
  .review reviewer s.taskId (currentIdentity s) none

/-- A member of the team with the role who holds nothing and has not answered. -/
structure Eligible (w : World) (l : Loaded) (role i : String) : Prop where
  named : i ≠ ""
  agent : ∃ agent, w.agents.get i = some agent ∧ agent.team = l.task.teamId ∧ agent.role = role
  free : Free w i
  fresh : i ∉ l.state.approvalReviewers

/-- No review of the task is bound, and no worktree for one is taken. -/
def Vacant (w : World) (l : Loaded) : Prop :=
  ∀ b ∈ w.bindings.rows, (b.kind = .review → b.task ≠ l.task.id) ∧
    ∀ team, w.teams.get l.task.teamId = some team → ∀ i,
      b.worktree ≠ worktreeOf w.home team.repo l.task l.state true i

/-- The approval a task waits for: the operator gives it at once, the reviewers of a role one after
the other, whoever they are, and the engine binds those that are free; nobody chooses a child. -/
structure Grantable (s : PipelineState) (stageId : String) (n : Nat) (choices : List String) :
    Prop where
  choices : choices = []
  attempt : n = s.attempt
  stage : ∃ st approver count bound, s.currentStage = some st ∧ st.id = stageId ∧
    st.stage = .approval approver count bound ∧
    (approver = .human → count = 1 ∧ s.approvalReviewers = [] ∧
      Granted s.stageIndex [.operatorReview s.taskId (ticket s) none] s) ∧
    ∀ role, approver = .role role →
      (∀ reviewers : List String, reviewers.Nodup → (∀ r ∈ reviewers, r ∉ s.approvalReviewers) →
        s.approvalReviewers.length + reviewers.length = count →
        Granted s.stageIndex (reviewers.map (approving s)) s) ∧
      ∀ w l i head, Awaits w l → l.state = s → Vacant w l → Eligible w l role i →
        Gets s.currentHead
          (fun w' => ∃ j, j ∉ s.approvalReviewers ∧ Entitled w' l (approving s j))
          (action l.task s (.requestApproval stageId n bound head [])) w

theorem stageIndex_le_of_entry (he : Entry s i s' A) (hi : i ≤ s.workflow.stages.length) :
    i ≤ s'.stageIndex := by
  cases he with
  | asked => exact le_landing i
  | unexpanded => exact le_landing i
  | finished =>
    split_ifs <;> exact hi

/-- One more reviewer of those that are missing. -/
theorem exists_approve {approver : Approver} {count : Nat} {bound : Bool} {reviewer : String}
    (hsup : Supported s.workflow) (so : s.workflow.Sound) (hl : s.Live)
    (hs : s.currentStage = some st) (hst : st.stage = .approval approver count bound)
    (hr : reviewer ∉ s.approvalReviewers) :
    ∃ s' A, step s (.approvalGranted st.id s.attempt reviewer
        (if st.isBoundApproval then s.currentHead else none) none) = .ok (s', A) ∧
      (s.approvalReviewers.length + 1 < count ∧
          s' = { s with approvalReviewers := s.approvalReviewers ++ [reviewer] } ∨
        count ≤ s.approvalReviewers.length + 1 ∧ s.stageIndex < s'.stageIndex) := by
  have hcur : Current s st st.id s.attempt := ⟨hl.running, hs, rfl, rfl⟩
  have hbound : st.isBoundApproval = bound := by
    rw [WorkflowStage.isBoundApproval, hst]
  have hb : bound = true → s.currentHead.isSome = true ∧
      (if st.isBoundApproval then s.currentHead else none) = s.currentHead := by
    rintro rfl
    refine ⟨(hl.ready.head_isSome so ⟨st, hs, ?_⟩).2, by rw [hbound, if_pos rfl]⟩
    exact WorkflowStage.needsHead_of_isHeadBound (WorkflowStage.isHeadBound_iff.mpr
      (Or.inr hbound))
  have hno := hsup.picks so s.stageIndex
  have hp : s.choosePick none = .ok s := by
    simp [choosePick, hno]
  by_cases hlt : s.approvalReviewers.length + 1 < count
  · exact ⟨_, [], step_eq_ok_iff.mpr (.approvalCounted hcur hst hb hr hp hlt),
      Or.inl ⟨hlt, rfl⟩⟩
  · have hge : count ≤ s.approvalReviewers.length + 1 := by omega
    have hready := hl.ready_approvalMet so hs hst hb hr hp hge hno
    obtain ⟨s', A, he⟩ := hready.exists_enter so
    refine ⟨s', A, step_eq_ok_iff.mpr (.approvalMet hcur hst hb hr hp hge ?_), Or.inr ⟨hge, ?_⟩⟩
    · rw [completeApproval_eq, if_neg (by simp [hno])]
      exact he
    · exact stageIndex_le_of_entry (enterStage_eq_ok_iff.mp he) hl.index_lt

section

variable {P : World → Prop} {w : World} {l : Loaded} {head : Option String} {c : Call} {id : String}
  {β : Type} {Q : Except Refusal β → World → Prop}

theorem exec_of_smooth {a : Answer} (ha : Smooth head w c a) : w.exec c a = w.perform a c := by
  rcases fault_or_perform w c a with ⟨reason, hf, -⟩ | ⟨-, he⟩
  · rw [ha.1] at hf
    cases hf
  · exact he

theorem reaches_readThen (hc : c.reads = true)
    (hrev : ∀ repo reference, c ≠ .revParse repo reference) {f : c.Reply → Routine β}
    (ok : ∀ x (a : Answer), a.stopped = [] → (w.perform a c).1 = .ok x →
      Reaches (Smooth head) P (f x) Q w) : Reaches (Smooth head) P (call c >>= f) Q w := by
  refine Reaches.bind (R := After (fun x w' => w' = w ∧ ∃ a : Answer, a.stopped = [] ∧
    (w.perform a c).1 = .ok x) fun _ _ => False) (.ask ⟨{}, rfl, rfl, fun repo reference h =>
      absurd h (hrev repo reference)⟩ fun a ha => ?_) (fun x w' hx => ?_) fun _ _ hf => hf.elim
  · obtain ⟨hw, x, hx⟩ := perform_reads hc w a
    change After _ _ (w.exec c a).1 (w.exec c a).2
    rw [exec_of_smooth ha, hw, hx]
    exact ⟨rfl, a, ha.2.1, hx⟩
  · obtain ⟨rfl, a, hstopped, hx⟩ := hx
    exact ok x a hstopped hx

theorem reaches_revParseThen {repo reference h : String} {f : String → Routine β}
    (hh : head = some h) (ok : Reaches (Smooth head) P (f h) Q w) :
    Reaches (Smooth head) P (Executor.revParse repo reference >>= f) Q w := by
  refine Reaches.bind (R := After (fun x w' => w' = w ∧ x = h) fun _ _ => False)
    (.ask ⟨{ text := h }, rfl, rfl, fun _ _ _ => hh⟩ fun a ha => ?_) (fun x w' hx => ?_)
    fun _ _ hf => hf.elim
  · change After _ _ (w.exec (.revParse repo reference) a).1 (w.exec (.revParse repo reference) a).2
    rw [exec_of_smooth ha]
    exact ⟨rfl, (Option.some.inj (hh.symm.trans (ha.2.2 repo reference rfl))).symm⟩
  · obtain ⟨rfl, rfl⟩ := hx
    exact ok

theorem reaches_teamThen {team : Team} {f : Team → Routine β} (ht : w.teams.get id = some team)
    (ok : Reaches (Smooth head) P (f team) Q w) :
    Reaches (Smooth head) P (Engine.team id >>= f) Q w := by
  refine Reaches.bind (R := After (fun x w' => w' = w ∧ x = team) fun _ _ => False) ?_
    (fun x w' hx => ?_) fun _ _ hf => hf.elim
  · refine reaches_readThen (c := .teams) rfl (by simp) fun (teams : List Team) a _ hx => ?_
    obtain rfl := Except.ok.inj hx
    obtain ⟨hmem, rfl⟩ := Table.get_eq_some.mp ht
    have hfound := Table.find?_values (p := fun x => x.id = team.id) hmem (by simp)
      fun b _ hb => of_decide_eq_true hb
    rw [hfound]
    exact ⟨rfl, rfl⟩
  · obtain ⟨rfl, rfl⟩ := hx
    exact ok

/-- What was loaded is loaded again. -/
theorem reaches_loadThen {f : Loaded → Routine β} (hw : Awaits w l)
    (ok : Reaches (Smooth head) P (f l) Q w) :
    Reaches (Smooth head) P (load l.state.taskId >>= f) Q w := by
  obtain ⟨r, hr, hrestored⟩ := hw.row
  refine Reaches.bind (R := After (fun x w' => w' = w ∧ x = l) fun _ _ => False) ?_
    (fun x w' hx => ?_) fun _ _ hf => hf.elim
  · refine reaches_readThen (c := .loadTask _) rfl (by simp) fun (row : Option TaskRow) a _ hx => ?_
    obtain rfl := Except.ok.inj hx
    refine Reaches.orRaiseThen hr ?_
    refine reaches_readThen (c := .loadWorkflow r.task.workflowId r.task.workflowVersion) rfl
      (by simp) fun (workflow : Option Workflow) a _ hx => ?_
    obtain rfl := Except.ok.inj hx
    change After _ _ (restored l.state.taskId r (w.workflows.get (pinned r.task))) w
    rw [hrestored]
    exact ⟨rfl, rfl⟩
  · obtain ⟨rfl, rfl⟩ := hx
    exact ok

theorem reaches_repoWaitsThen {f : Bool → Routine β} (hw : Awaits w l)
    (ok : Reaches (Smooth head) P (f false) Q w) :
    Reaches (Smooth head) P (repoWaits l.task.teamId >>= f) Q w := by
  obtain ⟨team, ht, hgit, -⟩ := hw.team
  refine Reaches.bind (R := After (fun x w' => w' = w ∧ x = false) fun _ _ => False) ?_
    (fun x w' hx => ?_) fun _ _ hf => hf.elim
  · refine reaches_readThen (c := .settings) rfl (by simp) fun (me : Settings) a _ hx => ?_
    obtain rfl := Except.ok.inj hx
    split
    · exact ⟨rfl, rfl⟩
    · rename_i hno
      refine reaches_teamThen ht ⟨rfl, ?_⟩
      rw [Bool.eq_false_iff]
      exact fun hs => hno (hgit hs)
  · obtain ⟨rfl, rfl⟩ := hx
    exact ok

/-- With the branch where it was, nothing is observed. -/
theorem reaches_observeThen {f : Loaded → Routine β} (hw : Awaits w l) (hl : l.state.Live)
    (ok : Reaches (Smooth l.state.currentHead) P (f l) Q w) :
    Reaches (Smooth l.state.currentHead) P (observe l e >>= f) Q w := by
  obtain ⟨team, ht, -⟩ := hw.team
  refine Reaches.bind (R := After (fun x w' => w' = w ∧ x = l) fun _ _ => False) ?_
    (fun x w' hx => ?_) fun _ _ hf => hf.elim
  · refine reaches_readThen (c := .settings) rfl (by simp) fun (me : Settings) a _ hx => ?_
    split
    · exact ⟨rfl, rfl⟩
    · rename_i branch hbranch
      refine reaches_teamThen ht ?_
      split
      · exact ⟨rfl, rfl⟩
      · obtain ⟨hsome, -⟩ := Option.filter_eq_some_iff.mp hbranch
        obtain ⟨h, hh⟩ := Option.isSome_iff_exists.mp
          (hl.ready.records.head (Option.isSome_of_eq_some hsome))
        refine reaches_revParseThen hh ?_
        rw [if_pos (Or.inl hh)]
        exact ⟨rfl, rfl⟩
  · obtain ⟨rfl, rfl⟩ := hx
    exact ok

/-- An event that the state accepts is committed. -/
theorem reaches_event {next : PipelineState} (hw : Awaits w l) (hl : l.state.Live)
    (hs : step l.state e = .ok (next, A)) (hid : next.taskId = l.state.taskId) :
    Gets l.state.currentHead (Saves next) (event l.state.taskId e) w := by
  refine reaches_loadThen hw ?_
  refine Reaches.checkThen (by simp [hw.running]) ?_
  refine Reaches.checkThen (by simp [hw.running, TaskStatus.isClosed]) ?_
  refine reaches_repoWaitsThen hw ?_
  refine Reaches.checkThen (by simp) ?_
  refine reaches_observeThen hw hl ?_
  refine Reaches.bind (R := fun _ => Saves next) ?_ (fun _ w' h => .now h fun _ => h) fun _ _ h => h
  refine reaches_readThen (c := .newId) rfl (by simp) fun _ _ _ _ => ?_
  rw [hs]
  obtain ⟨r, hr, hrestored⟩ := hw.row
  obtain ⟨htask, hversion, -⟩ := restored_eq_ok hrestored
  refine Reaches.bind (R := fun _ => Saves next) (.ask ⟨{}, rfl, rfl, by simp⟩ fun a ha => ?_)
    (fun _ w' h => .now h fun _ => h) fun _ _ h => h
  set task : Task := { l.task with
    status := statusOf next.status
    mergeCommit := next.mergeCommit } with hnew
  have htid : task.id = l.state.taskId := by
    rw [hnew, htask]
    exact World.id_of_row hr
  obtain ⟨progress, hdata, hadv⟩ : ∃ progress : Progress,
      progress.data = ⟨some next.snapshot, none⟩ ∧
      w.advance task r.version ⟨some next.snapshot, none⟩ true =
        (true, w.putRow ⟨task, r.version + 1, some progress⟩) :=
    advance_eq (htid ▸ hr)
  change Saves next (w.exec (.advancePipeline task l.version ⟨some next.snapshot, none⟩ _) a).2
  rw [exec_of_smooth ha]
  change Saves next (w.advance task l.version ⟨some next.snapshot, none⟩ true).2
  rw [hversion, hadv]
  refine ⟨⟨task, r.version + 1, some progress⟩, ?_, congrArg TaskProgress.pipeline hdata⟩
  rw [World.row_putRow]
  exact if_pos (hid.trans htid.symm)

/-- The operator's answer to the approval that is shown. -/
theorem reaches_operatorReview {next : PipelineState} {count : Nat} {bound : Bool}
    (hw : Awaits w l) (hl : l.state.Live) (hcur : l.state.currentStage = some st)
    (hst : st.stage = .approval .human count bound)
    (hs : step l.state (reviewEvent l st.id "operator"
      (if st.isBoundApproval then l.state.currentHead else none) none) = .ok (next, A))
    (hid : next.taskId = l.state.taskId) :
    Gets l.state.currentHead (Saves next)
      (serve (.operatorReview l.state.taskId (ticket l.state) none)) w := by
  have hbound : st.isBoundApproval = bound := by
    rw [WorkflowStage.isBoundApproval, hst]
  rw [hbound] at hs
  refine reaches_loadThen hw ?_
  refine Reaches.checkThen (by simp) ?_
  refine Reaches.orRaiseThen hcur ?_
  rw [hst]
  exact Reaches.checkThen rfl (reaches_event hw hl hs hid)

/-- A reviewer's answer, with the head its binding was made for. -/
theorem reaches_review {next : PipelineState} {reviewer : String} (hw : Awaits w l)
    (hl : l.state.Live) (hent : Entitled w l (approving l.state reviewer))
    (hcur : l.state.currentStage = some st)
    (hrepo : st.isBoundApproval = true → l.state.workflow.requiresRepo = true)
    (hs : step l.state (reviewEvent l st.id reviewer
      (if st.isBoundApproval then l.state.currentHead else none) none) = .ok (next, A))
    (hid : next.taskId = l.state.taskId) :
    Gets l.state.currentHead (Saves next) (serve (approving l.state reviewer)) w := by
  obtain ⟨hagent, team, status, ht, hb⟩ := hent
  obtain ⟨r, hr, hrestored⟩ := hw.row
  have htid : l.task.id = l.state.taskId := by
    rw [(restored_eq_ok hrestored).1]
    exact World.id_of_row hr
  set b : BindingRow := { reviewBinding w.home team.repo l.task l.state reviewer with
    status := status } with hbdef
  have hmem : b ∈ w.bindings.rows := (Table.get_eq_some.mp hb).1
  have hbid : b.instanceId = reviewer := rfl
  have hbtask : b.task = l.state.taskId := htid
  have hidentity : currentIdentity l.state = some ⟨st.id, l.state.attempt⟩ := by
    rw [currentIdentity, hcur]
    rfl
  refine Reaches.bind (R := After (fun _ w' => w = w') fun _ _ => False) ?_ (fun _ w' hw' => ?_)
    fun _ _ hf => hf.elim
  · refine reaches_readThen (c := .instance_ reviewer) rfl (by simp)
      fun (found : Option (Agent × InstanceStatus)) a _ hx => ?_
    obtain rfl := Except.ok.inj hx
    rw [Program.check, if_pos (by rw [Option.isSome_map]; exact hagent)]
    exact rfl
  obtain rfl : w = w' := hw'
  refine Reaches.checkThen rfl ?_
  refine Reaches.bind (R := After (fun x w' => w = w' ∧ l = x) fun _ _ => False) ?_
    (fun x w' hx => ?_) fun _ _ hf => hf.elim
  · refine reaches_loadThen hw ?_
    refine Reaches.checkThen (by simp [hw.running, TaskStatus.isClosed]) ?_
    refine Reaches.checkThen (by simp [hidentity, hl.running]) ?_
    refine reaches_readThen (c := .bindings) rfl (by simp) fun (bindings : List BindingRow) a _ hx => ?_
    obtain rfl := Except.ok.inj hx
    refine Reaches.checkThen (List.any_eq_true.mpr ⟨b, Table.mem_values.mpr hmem, ?_⟩) ⟨rfl, rfl⟩
    simp [hbdef, reviewBinding, htid]
  · obtain ⟨rfl, rfl⟩ := hx
    refine reaches_readThen (c := .bindings) rfl (by simp) fun (bindings : List BindingRow) a _ hx => ?_
    obtain rfl := Except.ok.inj hx
    refine Reaches.orRaiseThen (Table.find?_values hmem ?_ fun c _ hc => ?_) ?_
    · simp [hbdef, reviewBinding, htid]
    · simp only [Bool.and_eq_true, decide_eq_true_eq] at hc
      exact hc.1.1
    refine Reaches.orRaiseThen hcur ?_
    have hhead : (if st.isBoundApproval then b.head else none) =
        if st.isBoundApproval then l.state.currentHead else none := by
      by_cases hbound : st.isBoundApproval = true
      · obtain ⟨team', ht', -, hsome⟩ := hw.team
        obtain rfl := Option.some.inj (ht.symm.trans ht')
        rw [if_pos hbound, if_pos hbound]
        exact if_pos (hsome (hrepo hbound))
      · rw [if_neg hbound, if_neg hbound]
    rw [hhead]
    exact (reaches_event hw hl hs hid).bind (fun _ _ h => .now h fun _ => h) fun _ _ h => h

end

/-- The missing reviewers approve one after the other. -/
theorem granted_reviews {id : String} {approver : Approver} {count : Nat} {bound : Bool}
    {reviewers : List String} (hsup : Supported v.workflow) (hi : Invariant id v s)
    (hrun : s.status = .running) (hs : s.currentStage = some st)
    (hst : st.stage = .approval approver count bound) (hn : reviewers.Nodup)
    (hr : ∀ r ∈ reviewers, r ∉ s.approvalReviewers)
    (hc : s.approvalReviewers.length + reviewers.length = count) :
    Granted s.stageIndex (reviewers.map (approving s)) s := by
  have hl := hi.inv.live_of_running hrun
  have hw : Supported s.workflow := hi.workflow ▸ hsup
  have hrepo : st.isBoundApproval = true → s.workflow.requiresRepo = true := by
    intro hb
    rw [hi.workflow]
    refine v.requiresRepo (hi.workflow ▸ List.mem_of_getElem? hs) ?_
    exact WorkflowStage.needsHead_of_isHeadBound (WorkflowStage.isHeadBound_iff.mpr (Or.inr hb))
  induction reviewers generalizing s with
  | nil =>
    have := hl.count_eq hi.sound hs hst
    simp only [List.length_nil] at hc
    omega
  | cons r rest ih =>
    obtain ⟨hfresh, hn⟩ := List.nodup_cons.mp hn
    obtain ⟨s', A, hstep, hor⟩ := exists_approve hw hi.sound hl hs hst (hr r List.mem_cons_self)
    have hi' := hi.step hstep
    have hid : s'.taskId = s.taskId := hi'.task.trans hi.task.symm
    refine ⟨s', hid, fun w l hwait hstate hent => ?_, ?_⟩
    · subst hstate
      exact reaches_review hwait hl hent hs hrepo hstep hid
    · rw [List.length_cons] at hc
      rcases hor with ⟨hlt, rfl⟩ | ⟨hge, hpast⟩
      · refine ih hi' hrun hs hn (fun x hx hmem => ?_) ?_ (hi'.inv.live_of_running hrun)
          (hi'.workflow ▸ hsup) hrepo
        · rcases List.mem_append.mp hmem with hmem | hmem
          · exact hr x (List.mem_cons_of_mem _ hx) hmem
          · exact hfresh (List.mem_singleton.mp hmem ▸ hx)
        · simp only [List.length_append, List.length_singleton]
          omega
      · obtain rfl := List.length_eq_zero_iff.mp (show rest.length = 0 by omega)
        exact hpast

/-- The operator approves at once. -/
theorem granted_operator {id : String} {count : Nat} {bound : Bool} (hsup : Supported v.workflow)
    (hi : Invariant id v s) (hrun : s.status = .running) (hs : s.currentStage = some st)
    (hst : st.stage = .approval .human count bound) : count = 1 ∧ s.approvalReviewers = [] ∧
      Granted s.stageIndex [.operatorReview s.taskId (ticket s) none] s := by
  have hl := hi.inv.live_of_running hrun
  have hw : Supported s.workflow := hi.workflow ▸ hsup
  obtain rfl := hw.human st (List.mem_of_getElem? hs) count bound hst
  have hnone : s.approvalReviewers = [] := by
    have hlt := hl.count_eq hi.sound hs hst
    exact List.length_eq_zero_iff.mp (by omega)
  have hfresh : "operator" ∉ s.approvalReviewers := hnone ▸ List.not_mem_nil
  obtain ⟨s', A, hstep, ⟨hlt, -⟩ | ⟨-, hpast⟩⟩ := exists_approve hw hi.sound hl hs hst hfresh
  · omega
  have hid : s'.taskId = s.taskId := (hi.step hstep).task.trans hi.task.symm
  refine ⟨rfl, hnone, s', hid, fun w l hwait hstate _ => ?_, hpast⟩
  subst hstate
  exact reaches_operatorReview hwait hl hs hst hstep hid

/-! The engine binds a free member of the team to the review. -/

section

variable {w : World} {l : Loaded} {role i : String} {head : Option String}

theorem heldTask_of_free (hf : Free w i) :
    heldTask (w.tasks.values.map (·.task)) w.bindings.values i = none := by
  have htask : (w.tasks.values.map (·.task)).find?
      (fun t => t.assignee = some i && !t.status.isClosed) = none := by
    refine List.find?_eq_none.mpr fun t ht hheld => ?_
    obtain ⟨r, hr, rfl⟩ := List.mem_map.mp ht
    simp only [Bool.and_eq_true, decide_eq_true_eq] at hheld
    exact hf.task r.id r (Table.get_of_mem (Table.mem_values.mp hr)) hheld.2 hheld.1
  have hbind : w.bindings.values.find? (·.instanceId = i) = none := by
    refine List.find?_eq_none.mpr fun b hb he => ?_
    have hget := Table.get_of_mem (Table.mem_values.mp hb)
    rw [of_decide_eq_true he, hf.binding] at hget
    cases hget
  rw [heldTask, htask, hbind]
  rfl

/-- Somebody who is free is chosen. -/
theorem exists_decided {found : List (Agent × InstanceStatus)}
    (hfound : found = w.agents.values.map fun agent => (agent, .running))
    (hrow : ∃ r, w.row l.task.id = some r ∧ r.isOpen = true ∧ r.task = l.task)
    (he : Eligible w l role i) :
    ∃ j, choose (requestFor l.task l.state role true w.agents.values found)
        (candidatesOf l.task l.state w.agents.values w.bindings.values
          (w.tasks.values.map (·.task)) found) = .assigned j ∧
      (w.agents.get j).isSome = true ∧ w.bindings.get j = none ∧ j ∉ l.state.approvalReviewers := by
  obtain ⟨agent, hagent, hteam, hrole⟩ := he.agent
  obtain ⟨hmem, hid⟩ := Table.get_eq_some.mp hagent
  have hmem := Table.mem_values.mpr hmem
  set request := requestFor l.task l.state role true w.agents.values found with hrequest
  set candidates := candidatesOf l.task l.state w.agents.values w.bindings.values
    (w.tasks.values.map (·.task)) found with hcandidates
  have hp : ∀ t h b c, request.purpose ≠ .rework t h b c := by
    intro t h b c hcon
    rw [hrequest] at hcon
    simp [requestFor] at hcon
  have hmember : w.agents.values.find? (fun m => m.id = agent.id && m.team = l.task.teamId) =
      some agent := by
    refine Table.find?_values (Table.mem_values.mp hmem) (by simp [hteam]) fun b _ hb => ?_
    simp only [Bool.and_eq_true, decide_eq_true_eq] at hb
    exact hb.1
  have hc : (⟨agent.id, agent.team, agent.role, agent.backend, none, false, true⟩ : Candidate) ∈
      candidates := by
    refine List.mem_filterMap.mpr ⟨(agent, .running), ?_, ?_⟩
    · rw [hfound]
      exact List.mem_filter.mpr ⟨List.mem_map.mpr ⟨agent, hmem, rfl⟩, by simp⟩
    · have hfresh : l.state.approvalReviewers.contains agent.id = false := by
        rw [Bool.eq_false_iff, ne_eq, List.contains_iff_mem]
        exact hid ▸ he.fresh
      have hheld : heldTask (w.tasks.values.map (·.task)) w.bindings.values agent.id = none :=
        heldTask_of_free (hid ▸ he.free)
      simp only [hmember, Option.map_some, hheld, hfresh, Bool.not_false]
  have hholder : agent.id ≠ l.task.assignee.getD "" := by
    obtain ⟨r, hr, hopen, htask⟩ := hrow
    cases hassignee : l.task.assignee with
    | none => exact fun h => he.named (hid.symm.trans h)
    | some holder =>
      rintro rfl
      exact he.free.task _ r hr hopen (by rw [htask, hassignee]; exact congrArg some hid)
  have heligible : (⟨agent.id, agent.team, agent.role, agent.backend, none, false, true⟩ :
      Candidate) ∈ request.eligible candidates := by
    refine (List.mem_insertionSort _).mpr (List.mem_filter.mpr ⟨(List.mem_insertionSort _).mpr
      (List.mem_filter.mpr ⟨List.mem_filter.mpr ⟨hc, ?_⟩, ?_⟩), ?_⟩)
    · rw [hrequest]
      simp [requestFor, hteam, hrole]
    · have hallowed : allBackends.contains agent.backend = true := by
        cases agent.backend <;> rfl
      rw [hrequest]
      simp only [AssignmentRequest.isAllowed, requestFor, hallowed]
      rfl
    · exact decide_eq_true hholder
  have hcount : 0 < (w.agents.values.filter
      fun m => m.team = l.task.teamId && m.role = role).length :=
    List.length_pos_of_mem (List.mem_filter.mpr ⟨hmem, by simp [hteam, hrole]⟩)
  obtain ⟨j, hj⟩ := exists_choose hp (if_pos hcount) (by simp [validRoleCapacity]) heligible
  refine ⟨j, hj, ?_⟩
  obtain ⟨c, hcmem, rfl, -, -, husage, hheld, -⟩ := choose_free hp hj
  obtain ⟨row, hrowmem, hmap⟩ := List.mem_filterMap.mp hcmem
  obtain ⟨m, -, rfl⟩ := Option.map_eq_some_iff.mp hmap
  have hlisted := List.mem_of_mem_filter hrowmem
  rw [hfound] at hlisted
  obtain ⟨other, hother, rfl⟩ := List.mem_map.mp hlisted
  refine ⟨?_, ?_, ?_⟩
  · rw [Table.get_of_mem (Table.mem_values.mp hother)]
    rfl
  · have hbind := (Option.or_eq_none_iff.mp hheld).2
    rw [Option.map_eq_none_iff, List.find?_eq_none] at hbind
    refine Table.get_eq_none.mpr fun b hb he => ?_
    exact hbind b (Table.mem_values.mpr hb) (decide_eq_true he)
  · simpa using husage

/-- The engine's own action binds a reviewer who has not answered. -/
theorem reaches_bound {count : Nat} {bound : Bool} {stageId : String} (hw : Awaits w l)
    (hcur : l.state.currentStage = some st) (hst : st.stage = .approval (.role role) count bound)
    (hv : Vacant w l) (he : Eligible w l role i) : Gets l.state.currentHead
      (fun w' => ∃ j, j ∉ l.state.approvalReviewers ∧ Entitled w' l (approving l.state j))
      (action l.task l.state (.requestApproval stageId n bound head [])) w := by
  obtain ⟨team, ht, -⟩ := hw.team
  obtain ⟨r, hr, hrestored⟩ := hw.row
  have htask : l.task = r.task := (restored_eq_ok hrestored).1
  have hid : l.task.id = l.state.taskId := by
    rw [htask]
    exact World.id_of_row hr
  have hrow : w.row l.task.id = some r := hid ▸ hr
  have hopen : r.isOpen = true := by
    rw [TaskRow.isOpen, ← htask, hw.running]
    rfl
  rw [action, hcur, Option.map_some, hst]
  refine reaches_readThen (c := .members) rfl (by simp) fun (members : List Agent) a _ hx => ?_
  obtain rfl := Except.ok.inj hx
  refine reaches_readThen (c := .bindings) rfl (by simp) fun (bindings : List BindingRow) a _ hx => ?_
  obtain rfl := Except.ok.inj hx
  have hwaits : holderWaits l.task true = Pure.pure false := by
    unfold holderWaits
    split <;> rfl
  rw [hwaits]
  refine Reaches.bind (R := After (fun x w' => w = w' ∧ x = false) fun _ _ => False) ⟨rfl, rfl⟩
    (fun x w' hx => ?_) fun _ _ hf => hf.elim
  obtain ⟨rfl, rfl⟩ := hx
  refine Reaches.bind (R := After (fun d w' => w = w' ∧ ∃ j, d = .assigned j ∧
    (w.agents.get j).isSome = true ∧ w.bindings.get j = none ∧ j ∉ l.state.approvalReviewers)
    fun _ _ => False) ?_ (fun d w' hd => ?_) fun _ _ hf => hf.elim
  · refine reaches_readThen (c := .tasks) rfl (by simp) fun (tasks : List Task) a _ hx => ?_
    obtain rfl := Except.ok.inj hx
    refine reaches_readThen (c := .instances) rfl (by simp)
      fun (found : List (Agent × InstanceStatus)) a hstopped hx => ?_
    have hfound : found = w.agents.values.map fun agent => (agent, .running) := by
      obtain rfl := Except.ok.inj hx
      simp [World.statusOf, hstopped]
    have hnone : existingReviewer l.task l.state true w.bindings.values = none := by
      rw [existingReviewer, Option.map_eq_none_iff, List.find?_eq_none]
      intro b hb hmatch
      simp only [Bool.true_and, Bool.and_eq_true, decide_eq_true_eq] at hmatch
      exact (hv b (Table.mem_values.mp hb)).1 hmatch.1.2 hmatch.1.1
    rw [hnone]
    exact ⟨rfl, exists_decided hfound ⟨r, hrow, hopen, htask.symm⟩ he⟩
  · obtain ⟨rfl, j, rfl, hagent, hfree, hfresh⟩ := hd
    refine reaches_teamThen ht ?_
    refine Reaches.bind (R := fun _ w' => ∃ j, j ∉ l.state.approvalReviewers ∧
      Entitled w' l (approving l.state j)) ?_ (fun _ w' h => .now h fun _ => h) fun _ _ h => h
    refine reaches_readThen (c := .settings) rfl (by simp) fun (me : Settings) a _ hx => ?_
    obtain rfl := Except.ok.inj hx
    refine Reaches.bind (R := fun _ w' => ∃ j, j ∉ l.state.approvalReviewers ∧
      Entitled w' l (approving l.state j)) (.ask ⟨{}, rfl, rfl, by simp⟩ fun a ha => ?_)
      (fun _ w' h => .now h fun _ => h) fun _ _ h => h
    set b := reviewBinding w.home team.repo l.task l.state j with hb
    have hput : w.putBinding b = .ok { w with bindings := w.bindings.put b } := by
      have hold : w.bindings.get b.instanceId = none := hfree
      have hknown : ((w.agents.get b.instanceId).isNone || (w.row b.task).isNone) = false := by
        rw [show w.agents.get b.instanceId = w.agents.get j from rfl,
          show w.row b.task = some r from hrow, Option.isNone_some, Bool.or_false]
        simpa using hagent
      have hplace : (w.bindings.rows.any (·.worktree = b.worktree)) = false := by
        rw [List.any_eq_false]
        intro c hc hsame
        exact (hv c hc).2 team ht j (of_decide_eq_true hsame)
      rw [World.putBinding, hold]
      simp only [hknown, hplace, Bool.false_eq_true, if_false]
    change ∃ j, j ∉ l.state.approvalReviewers ∧
      Entitled (w.exec (.putBinding b) a).2 l (approving l.state j)
    rw [exec_of_smooth ha]
    change ∃ j, j ∉ l.state.approvalReviewers ∧
      Entitled (w.write (w.putBinding b)).2 l (approving l.state j)
    rw [hput]
    refine ⟨j, hfresh, hagent, team, b.status, ht, ?_⟩
    exact Table.get_put_self

end

/-- Only an approval stage requests an approval. -/
theorem approval_of_requestOf {stageId : String} {bound : Bool} {head : Option String}
    {choices : List String} {m : Nat}
    (h : s.requestOf i st m = some (.requestApproval stageId n bound head choices)) :
    (∃ approver count, st.stage = .approval approver count bound) ∧ st.id = stageId ∧ n = m ∧
      choices = if s.workflow.picks i then s.fanoutChildTaskIds else [] := by
  unfold requestOf at h
  split at h
  · cases h
  · cases h
  · split at h <;> cases h
  · rename_i hst
    cases h
    exact ⟨⟨_, _, hst⟩, rfl, rfl, rfl⟩
  · obtain ⟨head, -, hcon⟩ := Option.map_eq_some_iff.mp h
    cases hcon
  · cases h

theorem Supported.grantable {id stageId : String} {bound : Bool} {head : Option String}
    {choices : List String} (hsup : Supported v.workflow) (hi : Invariant id v s)
    (ha : .requestApproval stageId n bound head choices ∈ s.outstandingActions) :
    Grantable s stageId n choices := by
  have hl := live_of_outstanding hi.inv ha
  have hw : Supported s.workflow := hi.workflow ▸ hsup
  obtain ⟨st, action, hs, hreq, heq | heq⟩ := hl.exists_requestOf hi.sound ha
  · cases heq
  · obtain rfl : action = .requestApproval stageId n bound head choices := by
      unfold withReason at heq
      split at heq
      · cases heq
      · exact heq.symm
    obtain ⟨⟨approver, count, hst⟩, hid, hn, hch⟩ := approval_of_requestOf hreq
    rw [hw.picks hi.sound, if_neg Bool.false_ne_true] at hch
    refine ⟨hch, hn, st, approver, count, bound, hs, hid, hst, ?_, ?_⟩
    · rintro rfl
      exact granted_operator hsup hi hl.running hs hst
    · rintro role rfl
      refine ⟨fun reviewers hnodup hfresh hc =>
        granted_reviews hsup hi hl.running hs hst hnodup hfresh hc, ?_⟩
      rintro w l i head hwait rfl hvacant heligible
      exact reaches_bound hwait hs hst hvacant heligible

/-- What the daemon accepts it executes: every action that is sent, or asked for again, is one the
engine carries out, and every approval it asks for can be given through its own requests. -/
theorem daemon_executes_what_it_accepts {id : String} {history : List PipelineTransition}
    (hv : validate wf = .ok v) (hr : (pipeline id v).Run history s) :
    (∀ t ∈ history, ∀ a ∈ t.output, Executable a) ∧
      (∀ a ∈ s.outstandingActions, Executable a) ∧
      (∀ t ∈ history, ∀ stageId n bound head choices,
        .requestApproval stageId n bound head choices ∈ t.output →
          Grantable t.after stageId n choices) ∧
      ∀ stageId n bound head choices,
        .requestApproval stageId n bound head choices ∈ s.outstandingActions →
          Grantable s stageId n choices := by
  have hsup := supported_of_validate hv
  have step_of_mem : ∀ t ∈ history, Invariant id v t.before ∧
      step t.before t.event = .ok (t.after, t.output) := by
    intro t ht
    obtain ⟨hreach, hs⟩ := hr.of_mem t ht
    exact ⟨invariant_of_reachable hreach, hs⟩
  have hi := invariant_of_reachable hr.reachable
  have hw : Supported s.workflow := hi.workflow ▸ hsup
  refine ⟨fun t ht a ha => ?_, fun a ha => ?_, fun t ht stageId n bound head choices ha => ?_,
    fun stageId n bound head choices ha => hsup.grantable hi ha⟩
  · obtain ⟨hit, hs⟩ := step_of_mem t ht
    have hwt : Supported t.before.workflow := hit.workflow ▸ hsup
    obtain ⟨hn, hf⟩ := hwt.sent hit hs ha
    exact executable_of_notNotice hn hf
  · obtain ⟨hn, hf⟩ := hw.outstanding hi.sound (live_of_outstanding hi.inv ha) ha
    exact executable_of_notNotice hn hf
  · obtain ⟨hit, hs⟩ := step_of_mem t ht
    obtain ⟨-, hout⟩ := live_of_request hit hs ha (by simp [PipelineAction.identity])
    exact hsup.grantable (hit.step hs) hout

/-! A task of the built-in workflow that waits for its review. -/

deriving instance DecidableEq for Loaded

def reviewable : List PipelineEvent :=
  [.start, .workCompleted "work" 1 (.branch "agend/task/x" "h" "p"), .submitted "submit" 1 none,
    .commandFinished "checks" 1 (some "h") (some 0)]

def underReview : PipelineState := scripted .builtinCode reviewable

def waiting : Loaded :=
  ⟨1, { Task.new "task" "x" "core" "code" 1 with
    status := .running, requiresRepo := true }, underReview,
    ⟨⟨some underReview.snapshot, none⟩, none, false⟩⟩

/-- A team with a repository and a reviewer. -/
def bench (bindings : Table BindingRow.instanceId) : World :=
  { World.empty "/d" with
    git := true
    teams := Table.empty.put ⟨"core", some "repo", "code"⟩
    agents := Table.empty.put ⟨"ann", .claude, "core", "reviewer", "inbox"⟩
    workflows := Table.empty.put Workflow.builtinCode
    tasks := Table.empty.put ⟨waiting.task, 1, some waiting.progress⟩
    bindings := bindings }

theorem awaits_bench (bindings : Table BindingRow.instanceId) : Awaits (bench bindings) waiting := by
  refine ⟨⟨⟨waiting.task, 1, some waiting.progress⟩, ?_, ?_⟩, rfl, ⟨"core", some "repo", "code"⟩, ?_,
    fun _ => rfl, fun _ => rfl⟩
  · exact Table.get_put_self
  · change restored "task" ⟨waiting.task, 1, some waiting.progress⟩ (some Workflow.builtinCode) = .ok waiting
    decide +kernel
  · exact Table.get_put_self

/-- A free reviewer is bound, and then approves the task past its review. -/
theorem daemon_executes_what_it_accepts_builtin :
    (∀ a ∈ underReview.outstandingActions, Executable a) ∧
      Gets underReview.currentHead
        (fun w => ∃ j, j ∉ underReview.approvalReviewers ∧
          Entitled w waiting (approving underReview j))
        (action waiting.task underReview (.requestApproval "review" 1 true (some "h") []))
        (bench .empty) ∧
      ∃ s', underReview.stageIndex < s'.stageIndex ∧
        Gets underReview.currentHead (Saves s') (serve (approving underReview "ann"))
          (bench (Table.empty.put
            (reviewBinding "/d" (some "repo") waiting.task underReview "ann"))) := by
  obtain ⟨history, hr, -⟩ := run_scripted .builtinCode reviewable
  have hr : (pipeline "task" .builtinCode).Run history underReview := hr
  have hv : validate Workflow.builtinCode = .ok .builtinCode := rfl
  obtain ⟨-, hout, -, hgrant⟩ := daemon_executes_what_it_accepts hv hr
  obtain ⟨-, -, st, approver, count, bound, hcur, hid, hst, -, hrole⟩ :=
    hgrant "review" 1 true (some "h") [] (by decide +kernel)
  have hstage : underReview.currentStage.map WorkflowStage.stage =
      some (.approval (.role "reviewer") 1 true) := by decide +kernel
  have happroval : Stage.approval approver count bound = .approval (.role "reviewer") 1 true := by
    rw [← hst]
    exact Option.some.inj ((congrArg (Option.map WorkflowStage.stage) hcur).symm.trans hstage)
  cases happroval
  obtain ⟨hgranted, hbound⟩ := hrole "reviewer" rfl
  have hnone : underReview.approvalReviewers = [] := by decide +kernel
  refine ⟨hout, hbound (bench .empty) waiting "ann" (some "h") (awaits_bench _) rfl
    (fun b hb => nomatch hb) ⟨by decide, ⟨_, Table.get_put_self, rfl, rfl⟩, ⟨fun t r hr _ ha => ?_,
      rfl⟩, hnone ▸ List.not_mem_nil⟩, ?_⟩
  · have hr : (Table.empty.put ⟨waiting.task, 1, some waiting.progress⟩ : Table TaskRow.id).get t =
        some r := hr
    rw [Table.get_put] at hr
    split_ifs at hr
    · obtain rfl := Option.some.inj hr
      cases ha
    · rw [Table.get_empty] at hr
      cases hr
  · obtain ⟨s', -, hgets, hpast⟩ := hgranted ["ann"] (List.nodup_singleton _)
      (by rw [hnone]; simp) (by rw [hnone]; rfl)
    refine ⟨s', hpast, hgets _ waiting (awaits_bench _) rfl ⟨rfl, ⟨"core", some "repo", "code"⟩, ?_⟩⟩
    exact ⟨.pending, Table.get_put_self, Table.get_put_self⟩

end Agend.Engine
