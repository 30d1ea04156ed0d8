import Agend.Pipeline.Outstanding

/-! A result is consumed at most once: attempts open once, and an attempt that is over stays over. -/
namespace Agend.Pipeline

open PipelineState

/-- The step opened this attempt of the stage. -/
def Opens (t : PipelineTransition) (stageId : String) (attempt : Nat) : Prop :=
  ∃ i st, t.before.workflow.stages[i]? = some st ∧ st.id = stageId ∧
    t.before.attempts.getD i 0 < attempt ∧ attempt ≤ t.after.attempts.getD i 0

/-- The step left the place it found the task at. -/
def Leaves (t : PipelineTransition) : Prop :=
  t.after.stageIndex ≠ t.before.stageIndex ∨ t.after.attempt ≠ t.before.attempt ∨
    t.after.status ≠ t.before.status

/-- The step ended this attempt of the stage, with its result or without. -/
def Ends (t : PipelineTransition) (stageId : String) (attempt : Nat) : Prop :=
  (∃ st, Current t.before st stageId attempt) ∧ Leaves t

/-- The attempt was opened once and never runs again. -/
def Spent (stageId : String) (attempt : Nat) (s : PipelineState) : Prop :=
  s.status.isTerminal = true ∨ ∀ i st, s.workflow.stages[i]? = some st → st.id = stageId →
    attempt < s.attempts.getD i 0 ∨ s.stageIndex ≠ i ∧ attempt ≤ s.attempts.getD i 0

variable {taskId : String} {w : ValidatedWorkflow} {s s' : PipelineState} {e : PipelineEvent}
  {A : List PipelineAction} {stageId : String} {n : Nat} {st : WorkflowStage}

theorem Accepted.not_terminal (ha : Accepted s e s' A) : s.status.isTerminal = false := by
  have running : s.status = .running → s.status.isTerminal = false := fun h => by rw [h]; rfl
  cases ha with
  | start hp | cancelledPending hp => rw [hp]; rfl
  | workCompleted hc | submitted hc | commandPassed hc | commandFailed hc | approvalCounted hc
  | approvalMet hc | changesRequested hc | fanoutCompleted hc | fanoutFirst hc | stageFailed hc
  | timeoutNotified hc | timeoutReassigned hc | timeoutCancelled hc | mergeFailed hc
  | mergeCompleted hc => exact running hc.running
  | commitKnown _ hr | commitCreated hr | mainAdvanced hr | cancelledRunning hr => exact running hr
  | commitDeferred hf | advanceDeferred hf => exact running (exists_stage_of_mergeInFlight hf).1

/-- An accepted result is for the running stage and attempt. -/
theorem exists_current {identity : Identity} (hs : step s e = .ok (s', A))
    (he : e.identity = some identity) : ∃ st, Current s st identity.stageId identity.attempt := by
  unfold step at hs
  split_ifs at hs
  simp only [he] at hs
  cases hc : s.checkIdentity identity with
  | error err => simp [hc] at hs
  | ok u =>
    obtain ⟨st, hcur, -⟩ := checkIdentity_eq_ok_iff.mp hc
    exact ⟨st, hcur⟩

namespace Spent

theorem not_current (h : Spent stageId n s) (hc : Current s st stageId n) : False := by
  rcases h with ht | h
  · rw [hc.running] at ht
    cases ht
  · have hatt := hc.attempt
    rw [attempt] at hatt
    rcases h _ st hc.stage hc.id with hlt | ⟨hne, -⟩
    · omega
    · exact hne rfl

theorem rejects (h : Spent stageId n s) {identity : Identity} (he : e.identity = some identity)
    (hid : identity.stageId = stageId) (hn : identity.attempt = n)
    (r : PipelineState × List PipelineAction) : step s e ≠ .ok r := by
  intro hs
  obtain ⟨st, hc⟩ := exists_current hs he
  rw [hid, hn] at hc
  exact h.not_current hc

theorem keep (hi : Invariant taskId w s) (hs : step s e = .ok (s', A)) (h : Spent stageId n s) :
    Spent stageId n s' := by
  have ha := step_eq_ok_iff.mp hs
  have hlater := (ha.effect hi.sound hi.inv).later hi.sound hi.inv
  rcases h with ht | h
  · rw [ha.not_terminal] at ht
    cases ht
  by_cases hr : s'.status = .running
  · right
    intro i st hst hid
    rw [(ha.sameTask hi.sound hi.inv).1] at hst
    have hgrow := hlater.grows i
    rcases h i st hst hid with hlt | ⟨hne, hle⟩
    · exact Or.inl (by omega)
    · rcases hlater.opened hr with ⟨hidx, -⟩ | hopen
      · exact Or.inr ⟨by rw [hidx]; exact hne, by omega⟩
      · by_cases heq : s'.stageIndex = i
        · left
          rw [attempt, heq] at hopen
          omega
        · exact Or.inr ⟨heq, by omega⟩
  · exact Or.inl (hlater.isTerminal hr)

/-- A step that leaves a running attempt ends it for good. -/
theorem of_leaves (hi : Invariant taskId w s) (hc : Current s st stageId n)
    (hs : step s e = .ok (s', A)) (hl : Leaves ⟨s, e, s', A⟩) : Spent stageId n s' := by
  have ha := step_eq_ok_iff.mp hs
  have hlater := (ha.effect hi.sound hi.inv).later hi.sound hi.inv
  have hatt : s.attempts.getD s.stageIndex 0 = n := hc.attempt
  by_cases hr : s'.status = .running
  · right
    intro i st' hst hid
    rw [(ha.sameTask hi.sound hi.inv).1] at hst
    have hi' := hi.sound.stagePosition_eq hst
    rw [hid, ← hc.id, hi.sound.stagePosition_eq hc.stage] at hi'
    obtain rfl := Option.some.inj hi'
    have hgrow := hlater.grows s.stageIndex
    rcases hlater.opened hr with ⟨hidx, hatts⟩ | hopen
    · rcases hl with hl | hl | hl
      · exact absurd hidx hl
      · exact absurd (by rw [attempt, attempt, hidx, hatts]) hl
      · exact absurd (hr.trans hc.running.symm) hl
    · by_cases heq : s'.stageIndex = s.stageIndex
      · left
        rw [attempt, heq] at hopen
        omega
      · exact Or.inr ⟨heq, by omega⟩
  · exact Or.inl (hlater.isTerminal hr)

end Spent

/-- While the attempt runs, `P` holds. -/
def Held (stageId : String) (n : Nat) (P : PipelineState → Prop) (s : PipelineState) : Prop :=
  Spent stageId n s ∨ (∃ st, Current s st stageId n) ∧ P s

/-- What every step inside the attempt keeps is held to its end. -/
theorem Held.next {P : PipelineState → Prop} (hi : Invariant taskId w s)
    (hs : step s e = .ok (s', A)) (hc : Current s st stageId n)
    (keep : s'.Live → Requests s e s' A → ¬ Leaves ⟨s, e, s', A⟩ → P s') :
    Held stageId n P s' := by
  by_cases hl : Leaves ⟨s, e, s', A⟩
  · exact Or.inl (.of_leaves hi hc hs hl)
  · right
    have hi' := hi.step hs
    have hcon := hl
    simp only [Leaves, not_or, Decidable.not_not] at hcon
    have ha := step_eq_ok_iff.mp hs
    have hlive := hi'.inv.live_of_running (hcon.2.2.trans hc.running)
    refine ⟨⟨st, hlive.running, ?_, hc.id, hcon.2.1.trans hc.attempt⟩,
      keep hlive ((ha.effect hi.sound hi.inv).requests hi.sound hi.inv hlive) hl⟩
    rw [(ha.sameTask hi.sound hi.inv).1, hcon.1]
    exact hc.stage

theorem Held.keep {P : PipelineState → Prop} (hi : Invariant taskId w s)
    (hs : step s e = .ok (s', A)) (h : Held stageId n P s)
    (keep : P s → s'.Live → Requests s e s' A → ¬ Leaves ⟨s, e, s', A⟩ → P s') :
    Held stageId n P s' := by
  rcases h with h | ⟨⟨st, hc⟩, hP⟩
  · exact Or.inl (h.keep hi hs)
  · exact Held.next hi hs hc (keep hP)

/-- Inside an attempt nothing is asked: requests come with a new one. -/
theorem not_asked_of_stays (hl : ¬ Leaves ⟨s, e, s', A⟩) {B : List PipelineAction}
    (h : Asked s s' B) : False := by
  simp only [Leaves, not_or, Decidable.not_not] at hl
  exact h.ne (Prod.ext hl.1 hl.2.1)

/-- The reviewer's approval counted towards the attempt is kept until the attempt ends. -/
theorem held_reviewer {reviewer : String} (hi : Invariant taskId w s)
    (hs : step s e = .ok (s', A)) (h : Held stageId n (reviewer ∈ ·.approvalReviewers) s) :
    Held stageId n (reviewer ∈ ·.approvalReviewers) s' := by
  refine h.keep hi hs fun hP _ hreq hl => ?_
  cases hreq with
  | asked _ B _ _ _ ha => exact (not_asked_of_stays hl ha).elim
  | kept _ _ _ hk => exact hk.reviewers _ hP
  | reported st hA he hs' =>
    rw [hs']
    exact hP

theorem held_granted {reviewer : String} {head child : Option String} (hi : Invariant taskId w s)
    (hs : step s (.approvalGranted stageId n reviewer head child) = .ok (s', A)) :
    Held stageId n (reviewer ∈ ·.approvalReviewers) s' := by
  obtain ⟨st, hc⟩ := exists_current hs rfl
  have he := (step_eq_ok_iff.mp hs).effect hi.sound hi.inv
  refine Held.next hi hs hc fun hlive hreq hl => ?_
  cases he with
  | advanced hc' hsu hm hf hn he =>
    exact (not_asked_of_stays hl (he.sent (hf.workflow ▸ hi.sound) hlive hi.inv.records hf.attempts
      hf.notifiedTimeout)).elim
  | counted _ _ _ hrev => rw [hrev]; simp
  | noted _ _ hid => cases hid
  | @headMoved _ change _ _ hev => cases change <;> cases hev
  | failed _ hf => cases hf
  | ended _ _ ht =>
    rw [hlive.running] at ht
    cases ht

theorem approval_once {history : List PipelineTransition}
    (hr : (pipeline taskId w).Run history s) (stageId : String) (n : Nat) (reviewer : String) :
    history.Pairwise fun later earlier =>
      (∃ head child, earlier.event = .approvalGranted stageId n reviewer head child) →
      ¬ ∃ head child, later.event = .approvalGranted stageId n reviewer head child := by
  refine hr.at_most_once (E := fun t => ∃ head child,
    t.event = .approvalGranted stageId n reviewer head child)
    (D := Held stageId n (reviewer ∈ ·.approvalReviewers)) ?_ ?_ ?_
  · rintro s e s' A hreach hs ⟨head, child, rfl⟩
    exact held_granted (invariant_of_reachable hreach) hs
  · exact fun s e s' A hreach hs h => held_reviewer (invariant_of_reachable hreach) hs h
  · rintro s e s' A hreach hs h ⟨head, child, rfl⟩
    obtain ⟨st, hc⟩ := exists_current hs rfl
    rcases h with h | ⟨-, hmem⟩
    · exact h.not_current hc
    · cases step_eq_ok_iff.mp hs with
      | approvalCounted _ _ _ hr => exact hr hmem
      | approvalMet _ _ _ hr => exact hr hmem

/-- The timeout of the current attempt was reported. -/
def TimeoutReported (s : PipelineState) : Prop :=
  s.notifiedTimeout = some (s.stageIndex, s.attempt) ∧
    ∃ st, s.currentStage = some st ∧ st.effectiveTimeoutAction = .notify

theorem held_timeout (hi : Invariant taskId w s) (hs : step s e = .ok (s', A))
    (h : Held stageId n TimeoutReported s) : Held stageId n TimeoutReported s' := by
  have hw := ((step_eq_ok_iff.mp hs).sameTask hi.sound hi.inv).1
  refine h.keep hi hs fun hP _ hreq hl => ?_
  obtain ⟨hn, st, hst, hact⟩ := hP
  cases hreq with
  | asked _ B _ _ _ ha => exact (not_asked_of_stays hl ha).elim
  | kept _ _ _ hk =>
    refine ⟨by rw [hk.notified, hk.stageIndex, hk.attempt, hn], st, ?_, hact⟩
    rw [currentStage, hw, hk.stageIndex]
    exact hst
  | reported st' hA he hs' hst' hact' =>
    rw [hs']
    exact ⟨rfl, st', hst', hact'⟩

theorem held_reported (hi : Invariant taskId w s)
    (hs : step s (.stageTimedOut stageId n) = .ok (s', A)) : Held stageId n TimeoutReported s' := by
  obtain ⟨st, hc⟩ := exists_current hs rfl
  refine Held.next hi hs hc fun hlive hreq hl => ?_
  cases hreq with
  | asked _ B _ _ _ ha => exact (not_asked_of_stays hl ha).elim
  | kept _ he => cases he
  | reported st' hA he hs' hst' hact =>
    rw [hs']
    exact ⟨rfl, st', hst', hact⟩

theorem timeout_once {history : List PipelineTransition}
    (hr : (pipeline taskId w).Run history s) (stageId : String) (n : Nat) :
    history.Pairwise fun later earlier =>
      earlier.event = .stageTimedOut stageId n → ¬ later.event = .stageTimedOut stageId n := by
  refine hr.at_most_once (E := fun t => t.event = .stageTimedOut stageId n)
    (D := Held stageId n TimeoutReported) ?_ ?_ ?_
  · rintro s e s' A hreach hs rfl
    exact held_reported (invariant_of_reachable hreach) hs
  · exact fun s e s' A hreach hs h => held_timeout (invariant_of_reachable hreach) hs h
  · rintro s e s' A hreach hs h rfl
    obtain ⟨st, hc⟩ := exists_current hs rfl
    rcases h with h | ⟨-, hn, st', hst', hact⟩
    · exact h.not_current hc
    · obtain rfl := Option.some.inj (hst'.symm.trans hc.stage)
      cases step_eq_ok_iff.mp hs with
      | timeoutNotified hc' hf ha hno => exact hno hn
      | timeoutReassigned hc' hf ha =>
        obtain rfl := Option.some.inj (hc'.stage.symm.trans hst')
        rw [hact] at ha
        cases ha
      | timeoutCancelled hc' hf ha =>
        obtain rfl := Option.some.inj (hc'.stage.symm.trans hst')
        rw [hact] at ha
        cases ha

/-- Attempts only grow, so each is opened by one step. -/
theorem opens_once {history : List PipelineTransition}
    (hr : (pipeline taskId w).Run history s) (stageId : String) (n : Nat) :
    history.Pairwise fun later earlier => Opens earlier stageId n → ¬ Opens later stageId n := by
  refine hr.at_most_once (E := (Opens · stageId n)) (D := fun s => ∃ i st,
    s.workflow.stages[i]? = some st ∧ st.id = stageId ∧ n ≤ s.attempts.getD i 0) ?_ ?_ ?_
  · rintro s e s' A hreach hs ⟨i, st, hst, hid, -, hle⟩
    have hi := invariant_of_reachable hreach
    have hw := ((step_eq_ok_iff.mp hs).sameTask hi.sound hi.inv).1
    exact ⟨i, st, by rw [hw]; exact hst, hid, hle⟩
  · rintro s e s' A hreach hs ⟨i, st, hst, hid, hle⟩
    have hi := invariant_of_reachable hreach
    have ha := step_eq_ok_iff.mp hs
    exact ⟨i, st, by rw [(ha.sameTask hi.sound hi.inv).1]; exact hst, hid,
      hle.trans (((ha.effect hi.sound hi.inv).later hi.sound hi.inv).grows i)⟩
  · rintro s e s' A hreach hs ⟨i, st, hst, hid, hle⟩ ⟨j, st', hst', hid', hlt, -⟩
    have so := (invariant_of_reachable hreach).sound
    have hij := so.stagePosition_eq hst
    rw [hid, ← hid', so.stagePosition_eq hst'] at hij
    obtain rfl := Option.some.inj hij
    exact absurd hlt (not_lt.mpr hle)

/-- An ended attempt is spent in every later state. -/
theorem spent_of_ends {history : List PipelineTransition}
    (hr : (pipeline taskId w).Run history s) {stageId : String} {n : Nat} :
    ∀ t ∈ history, Ends t stageId n → Spent stageId n s := by
  refine hr.marked (E := (Ends · stageId n)) (D := Spent stageId n) ?_ ?_
  · rintro s e s' A hreach hs ⟨⟨st, hc⟩, hl⟩
    exact .of_leaves (invariant_of_reachable hreach) hc hs hl
  · exact fun s e s' A hreach hs h => h.keep (invariant_of_reachable hreach) hs

/-- A request is emitted by the step that opens its attempt. -/
theorem opens_of_request (hi : Invariant taskId w s) (hs : step s e = .ok (s', A)) {a : PipelineAction} (ha : a ∈ A)
    (hid : a.identity = some (stageId, n)) : Opens ⟨s, e, s', A⟩ stageId n := by
  have hi' := hi.step hs
  have hacc := step_eq_ok_iff.mp hs
  have hr : s'.status = .running := by
    by_contra hne
    rw [(hacc.effect hi.sound hi.inv).silent hi.sound hi.inv hne a ha] at hid
    cases hid
  have hlive := hi'.inv.live_of_running hr
  have hreq := (hacc.effect hi.sound hi.inv).requests hi.sound hi.inv hlive
  cases hreq with
  | asked notices B hA hn hm hask =>
    obtain ⟨st, hst, hspec⟩ := hlive.outstanding_spec hi'.sound
    rw [hA] at ha
    rcases List.mem_append.mp ha with ha | ha
    · rw [PipelineAction.identity_of_isNotice (hn a ha)] at hid
      cases hid
    · rw [hask.sent] at ha
      have := (hspec a ha).2.1
      rw [hid] at this
      obtain ⟨rfl, rfl⟩ := Prod.mk.inj (Option.some.inj this)
      refine ⟨s'.stageIndex, st, ?_, rfl, hask.opened, le_rfl⟩
      rw [← (hacc.sameTask hi.sound hi.inv).1]
      exact hst
  | kept hA =>
    rw [hA] at ha
    cases ha
  | reported st hA =>
    rw [hA a ha] at hid
    cases hid

/-- Replays of ended attempts change nothing, wherever they arrive among new events. -/
theorem deliver_replays (hi : Invariant taskId w s) (replays events : List PipelineEvent)
    (h : ∀ e ∈ replays, ∃ identity, e.identity = some identity ∧
      Spent identity.stageId identity.attempt s) :
    events.foldl deliver s = (events.filter (· ∉ replays)).foldl deliver s := by
  induction events generalizing s with
  | nil => rfl
  | cons e rest ih =>
    by_cases hmem : e ∈ replays
    · have hsame : deliver s e = s := by
        obtain ⟨identity, hid, hspent⟩ := h e hmem
        unfold deliver
        cases hs : step s e with
        | ok r => exact absurd hs (hspent.rejects hid rfl rfl r)
        | error err => rfl
      simp only [List.foldl_cons, hsame, List.filter_cons, hmem, not_true_eq_false, decide_false,
        Bool.false_eq_true, if_false]
      exact ih hi h
    · simp only [List.foldl_cons, List.filter_cons, hmem, not_false_eq_true, decide_true, if_true]
      cases hs : step s e with
      | error err =>
        have hsame : deliver s e = s := by rw [deliver, hs]
        rw [hsame]
        exact ih hi h
      | ok r =>
        have hnext : deliver s e = r.1 := by rw [deliver, hs]
        rw [hnext]
        refine ih (hi.step (A := r.2) hs) fun e' he' => ?_
        obtain ⟨identity, hid, hspent⟩ := h e' he'
        exact ⟨identity, hid, hspent.keep hi (A := r.2) hs⟩

/-- Results are consumed at most once: an attempt is opened by one step, takes each reviewer and
its timeout once, and after it ended its results are rejected, however often they are replayed. -/
theorem results_consumed_once {history : List PipelineTransition}
    (hr : (pipeline taskId w).Run history s) :
    (∀ stageId n, history.Pairwise fun later earlier =>
      Opens earlier stageId n → ¬ Opens later stageId n) ∧
    (∀ t ∈ history, ∀ a ∈ t.output, ∀ stageId n,
      a.identity = some (stageId, n) → Opens t stageId n) ∧
    (∀ t ∈ history, ∀ identity, t.event.identity = some identity → Leaves t →
      ∀ e identity', e.identity = some identity' → identity'.stageId = identity.stageId →
        identity'.attempt = identity.attempt → ∀ r, step s e ≠ .ok r) ∧
    (∀ stageId n reviewer, history.Pairwise fun later earlier =>
      (∃ head child, earlier.event = .approvalGranted stageId n reviewer head child) →
      ¬ ∃ head child, later.event = .approvalGranted stageId n reviewer head child) ∧
    (∀ stageId n, history.Pairwise fun later earlier =>
      earlier.event = .stageTimedOut stageId n → ¬ later.event = .stageTimedOut stageId n) ∧
    ∀ replays : List PipelineEvent, (∀ e ∈ replays, ∃ identity, e.identity = some identity ∧
        ∃ t ∈ history, Ends t identity.stageId identity.attempt) →
      ∀ events : List PipelineEvent,
        events.foldl deliver s = (events.filter (· ∉ replays)).foldl deliver s := by
  refine ⟨opens_once hr, fun t ht a ha stageId n hid => ?_,
    fun t ht identity hid hl e identity' he hst hn => ?_, approval_once hr, timeout_once hr,
    fun replays hrep events => ?_⟩
  · obtain ⟨hreach, hs⟩ := hr.of_mem t ht
    exact opens_of_request (invariant_of_reachable hreach) hs ha hid
  · obtain ⟨-, hs⟩ := hr.of_mem t ht
    exact (spent_of_ends hr t ht ⟨exists_current hs hid, hl⟩).rejects he hst hn
  · refine deliver_replays (invariant_of_reachable hr.reachable) replays events fun e he => ?_
    obtain ⟨identity, hid, t, ht, hends⟩ := hrep e he
    exact ⟨identity, hid, spent_of_ends hr t ht hends⟩

/-- The first result of the built-in work stage, delivered again after a failed check sent the
task back there. -/
theorem results_consumed_once_builtin :
    let finished : PipelineEvent := .workCompleted "work" 1 (.branch "b" "h" "p")
    let s := scripted .builtinCode [.start, finished, .submitted "submit" 1 none,
      .commandFinished "checks" 1 (some "h") (some 1)]
    s.stageIndex = 0 ∧ s.status = .running ∧ ∀ r, step s finished ≠ .ok r := by
  intro finished s
  refine ⟨by decide +kernel, by decide +kernel, fun r => ?_⟩
  have h0 : (pipeline "task" .builtinCode).Run [] (.new "task" .builtinCode) := .start rfl
  have h1 := run_deliver h0 (e := .start) (by decide +kernel)
  have h2 := run_deliver h1 (e := finished) (by decide +kernel)
  have h3 := run_deliver h2 (e := .submitted "submit" 1 none) (by decide +kernel)
  have h4 := run_deliver h3 (e := .commandFinished "checks" 1 (some "h") (some 1))
    (by decide +kernel)
  have hall := (results_consumed_once h4).2.2.1
  rw [List.forall_mem_cons, List.forall_mem_cons, List.forall_mem_cons] at hall
  obtain ⟨-, -, hdone, -⟩ := hall
  have hleft : (deliver (deliver (.new "task" .builtinCode) .start) finished).stageIndex ≠
      (deliver (.new "task" .builtinCode) .start).stageIndex := by decide +kernel
  exact hdone ⟨"work", 1, none⟩ rfl (Or.inl hleft) finished ⟨"work", 1, none⟩ rfl rfl rfl r

end Agend.Pipeline
