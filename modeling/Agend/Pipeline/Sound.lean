import Agend.Pipeline.Step

/-! What the completability witness adds to the static rules: a run that would get stuck on some
workflow shape shows that no accepted workflow has that shape. -/
namespace Agend.Pipeline

open PipelineState

namespace Witness

/-- The loop rule: an invariant that excludes done and survives every turn excludes success. -/
theorem loop_ne_ok {scenario : String} {disturbance : Option (Nat × Disturbance)}
    {P : Bool → Nat → PipelineState → Prop} (hdone : ∀ d c s, P d c s → s.status ≠ .done)
    (hturn : ∀ d c s s', P d c s → s.status = .pending ∨ s.status = .running →
      play s (turnEvents disturbance d s c).1.1 = .ok s' →
      P (turnEvents disturbance d s c).2 (turnEvents disturbance d s c).1.2 s')
    (n : Nat) {d : Bool} {c : Nat} {s : PipelineState} (hp : P d c s) :
    loop scenario disturbance n d c s ≠ .ok () := by
  induction n generalizing d c s with
  | zero => simp [loop]
  | succ n ih =>
    intro h
    have turn : s.status = .pending ∨ s.status = .running → False := by
      intro hs
      unfold loop at h
      cases hpl : play s (turnEvents disturbance d s c).1.1 with
      | error e => rcases hs with hs | hs <;> simp [hs, hpl] at h
      | ok s' =>
        refine ih (hturn d c s s' hp hs hpl) ?_
        rcases hs with hs | hs
        all_goals
          simp only [hs, hpl] at h
          split at h
          · cases h
          · split at h
            · cases h
            · exact h
    cases hs : s.status with
    | pending => exact turn (Or.inl hs)
    | running => exact turn (Or.inr hs)
    | done => exact hdone d c s hp hs
    | failed => simp [loop, hs] at h
    | cancelled => simp [loop, hs] at h

theorem play_cons_eq_ok_iff {s s' : PipelineState} {e : PipelineEvent}
    {rest : List PipelineEvent} :
    play s (e :: rest) = .ok s' ↔ ∃ s1 A, Accepted s e s1 A ∧ play s1 rest = .ok s' := by
  simp only [← step_eq_ok_iff]
  cases h : step s e with
  | error e => simp [play, h]
  | ok r =>
    obtain ⟨s1, A⟩ := r
    simp [play, h]

/-- Events scripted for the stage called `id`; their heads are numbered up to `c`. -/
inductive Forward (w : Workflow) (c : Nat) (id : String) : PipelineEvent → Prop
  | work {n : Nat} {product : WorkProduct}
      (hp : ∀ b h p, product = .branch b h p → ∃ k ≤ c, h = head k) :
      Forward w c id (.workCompleted id n product)
  | submit {n : Nat} {change : Option String} (hc : w.forgeKind = "local" → change = none) :
      Forward w c id (.submitted id n change)
  | command {n : Nat} {h : Option String} : Forward w c id (.commandFinished id n h (some 0))
  | approval {n : Nat} {r : String} {h child : Option String} :
      Forward w c id (.approvalGranted id n r h child)
  | fanout {n : Nat} {children : List String} {child : Option String} :
      Forward w c id (.fanoutCompleted id n children child)

/-- Every head seen so far was scripted, and the local forge gave no change id. -/
structure Fresh (w : Workflow) (c : Nat) (s : PipelineState) : Prop where
  workflow : s.workflow = w
  head : ∀ h, s.currentHead = some h → ∃ k ≤ c, h = Witness.head k
  approvals : ∀ a ∈ s.approvals, ∀ h, a.head = some h → ∃ k ≤ c, h = Witness.head k
  change : w.forgeKind = "local" → s.changeId = none

/-- A success run that has not passed stage `g`. -/
structure OnWay (w : Workflow) (g c : Nat) (s : PipelineState) : Prop extends Fresh w c s where
  running : s.status = .running
  index : s.stageIndex ≤ g
  arrived : s.stageIndex = g → ∃ (s0 : PipelineState) (st : WorkflowStage) (action : PipelineAction),
    s = s0.entered g st ∧ w.stages[g]? = some st ∧
    s.requestOf g st s.attempt = some action

theorem Fresh.mono {w : Workflow} {c c' : Nat} {s : PipelineState} (h : Fresh w c s)
    (hc : c ≤ c') : Fresh w c' s where
  workflow := h.workflow
  head x hx := by
    obtain ⟨k, hk, he⟩ := h.head x hx
    exact ⟨k, hk.trans hc, he⟩
  approvals a ha x hx := by
    obtain ⟨k, hk, he⟩ := h.approvals a ha x hx
    exact ⟨k, hk.trans hc, he⟩
  change := h.change

theorem Fresh.entered {w : Workflow} {c i : Nat} {s : PipelineState} {st : WorkflowStage}
    (h : Fresh w c s) : Fresh w c (s.entered i st) where
  workflow := by simp [h.workflow]
  head := by simpa using h.head
  approvals a ha := by
    rw [entered_approvals] at ha
    split_ifs at ha
    · exact h.approvals a (List.mem_of_mem_filter ha)
    · exact h.approvals a ha
  change := by simpa using h.change

/-- Entry after a stage below `g` stops at or below `g`, which it cannot skip. -/
theorem OnWay.of_entry {w : Workflow} {g c i : Nat} {s s' : PipelineState}
    {A : List PipelineAction} (hg : w.At g fun st => !st.isKind .approval)
    (h : s.enterStage i = .ok (s', A)) (hf : Fresh w c s) (hr : s.status = .running)
    (hi : i ≤ g) : OnWay w g c s' ∨ s'.status = .failed := by
  have hl : s.landing i ≤ g := by
    by_contra hcon
    obtain ⟨st, hs, hp⟩ := satisfied_of_lt_landing hi (by omega : g < s.landing i)
    rw [hf.workflow] at hs
    rw [Workflow.at_iff hs, approvalForStage_isKind hp] at hg
    cases hg
  cases enterStage_eq_ok_iff.mp h with
  | asked hs hm ha =>
    left
    refine ⟨hf.entered, by simpa using hr, hl, fun he => ?_⟩
    rw [entered_stageIndex] at he
    rw [he] at hs ha ⊢
    exact ⟨_, _, _, rfl, hf.workflow ▸ hs, ha⟩
  | unexpanded => exact Or.inr rfl
  | finished hs =>
    rw [hf.workflow, List.getElem?_eq_none_iff] at hs
    have := hg.lt
    omega

theorem Fresh.recordApproval {w : Workflow} {c : Nat} {s : PipelineState} (h : Fresh w c s)
    (id : String) {bound : Bool} {head : Option String}
    (hb : bound = true → head = s.currentHead) : Fresh w c (s.recordApproval id bound head) where
  workflow := h.workflow
  head := h.head
  approvals a ha x hx := by
    rcases List.mem_append.mp ha with ha | ha
    · exact h.approvals a (List.mem_of_mem_filter ha) x hx
    · obtain rfl := List.mem_singleton.mp ha
      cases bound with
      | false => cases hx
      | true => exact h.head x (hb rfl ▸ hx)
  change := h.change

private theorem invalidate_approvals {s : PipelineState} :
    s.invalidateHeadBound.approvals =
      s.approvals.filter fun a => a.head = none || a.head = s.currentHead := rfl

theorem Fresh.takeProduct {w : Workflow} {c : Nat} {s : PipelineState} {product : WorkProduct}
    (h : Fresh w c s) (hp : ∀ b x p, product = .branch b x p → ∃ k ≤ c, x = Witness.head k) :
    Fresh w c (s.takeProduct product) := by
  cases product with
  | result => exact ⟨h.workflow, h.head, h.approvals, h.change⟩
  | plan items =>
    unfold PipelineState.takeProduct
    simp only
    split_ifs <;> exact ⟨h.workflow, h.head, h.approvals, h.change⟩
  | branch b x p =>
    unfold PipelineState.takeProduct
    simp only
    split_ifs
    · refine ⟨h.workflow, fun y hy => ?_, fun a ha => ?_, h.change⟩
      · obtain rfl := Option.some.inj hy
        exact hp b x p rfl
      · rw [show _ = List.filter _ _ from invalidate_approvals] at ha
        exact h.approvals a (List.mem_of_mem_filter ha)
    · refine ⟨h.workflow, fun y hy => ?_, h.approvals, h.change⟩
      obtain rfl := Option.some.inj hy
      exact hp b x p rfl

/-- One scripted event of a stage below `g`. -/
theorem OnWay.step {w : Workflow} (sh : w.Shape) {g c i : Nat} {s s' : PipelineState}
    {st : WorkflowStage} {e : PipelineEvent} {A : List PipelineAction}
    (hg : w.At g fun st => !st.isKind .approval) (h : OnWay w g c s)
    (hs : w.stages[i]? = some st) (hi : i < g) (he : Forward w c st.id e)
    (ha : Accepted s e s' A) : OnWay w g c s' ∨ s'.status = .failed := by
  have index : ∀ {st' : WorkflowStage} {n : Nat}, Current s st' st.id n → s.stageIndex = i :=
    fun hc => sh.ids _ _ _ _ (h.workflow ▸ hc.stage) hs hc.id
  cases he with
  | work hp =>
    cases ha with
    | workCompleted hc hst hm hen =>
      have hi' := index hc
      exact of_entry hg hen (h.toFresh.takeProduct hp) (frame_takeProduct.status.trans h.running)
        (by omega)
  | submit hch =>
    cases ha with
    | submitted hc hst hen =>
      have hi' := index hc
      exact of_entry hg hen ⟨h.workflow, h.head, h.approvals, hch⟩ h.running (by omega)
  | command =>
    cases ha with
    | commandFailed hc hst hx => exact absurd rfl hx
    | commandPassed hc hst hen =>
      have hi' := index hc
      have hf : Fresh w c (s.recordPass st.id s.currentHead) := by
        unfold PipelineState.recordPass
        split_ifs <;> exact ⟨h.workflow, h.head, h.approvals, h.change⟩
      exact of_entry hg hen hf (frame_recordPass.status.trans h.running) (by omega)
  | fanout =>
    cases ha with
    | fanoutCompleted hc hst hj hch hen =>
      have hi' := index hc
      exact of_entry hg hen ⟨h.workflow, h.head, h.approvals, h.change⟩ h.running (by omega)
    | fanoutFirst hc hst hch hw hen =>
      have hi' := index hc
      obtain ⟨B, hen, -⟩ := after_eq_ok_iff.mp hen
      exact of_entry hg hen ⟨h.workflow, h.head, h.approvals, h.change⟩ h.running (by omega)
  | @approval n r hd child =>
    have pick : ∀ {next : PipelineState}, s.choosePick child = .ok next →
        Fresh w c { next with approvalReviewers := s.approvalReviewers ++ [r] } := by
      intro next hp
      rcases choosePick_eq hp with ⟨rfl, -⟩ | ⟨_, -, rfl, -⟩ <;>
        exact ⟨h.workflow, h.head, h.approvals, h.change⟩
    cases ha with
    | approvalCounted hc hst hb hr hp hlt =>
      have hi' := index hc
      have hidx := (frame_choosePick hp).stageIndex
      exact Or.inl ⟨pick hp, (frame_choosePick hp).status.trans h.running,
        by simp only [hidx]; omega, fun hcon => by simp only [hidx] at hcon; omega⟩
    | @approvalMet _ _ _ _ _ bound _ _ _ next _ _ hc hst hb hr hp hge hen =>
      have hi' := index hc
      have hfr := frame_choosePick hp
      have hhead : bound = true → hd = next.currentHead := fun hbt => by
        rcases choosePick_eq hp with ⟨rfl, -⟩ | ⟨_, -, rfl, -⟩ <;> exact (hb hbt).2
      have hf := (pick hp).recordApproval st.id hhead
      rcases completeApproval_eq_ok hen with ⟨-, hen⟩ | ⟨winner, B, -, -, hen, -⟩
      · exact of_entry hg hen hf (hfr.status.trans h.running)
          (by simp only [hfr.stageIndex]; omega)
      · exact of_entry hg hen ⟨hf.workflow, hf.head, hf.approvals, hf.change⟩
          (hfr.status.trans h.running) (by simp only [hfr.stageIndex]; omega)

/-- The scripted events of one stage leave the run on its way, or fail it. -/
theorem OnWay.play {w : Workflow} (sh : w.Shape) {g c i : Nat} {st : WorkflowStage}
    (hg : w.At g fun st => !st.isKind .approval) (hs : w.stages[i]? = some st) (hi : i < g)
    {events : List PipelineEvent} (he : ∀ e ∈ events, Forward w c st.id e) {s s' : PipelineState}
    (h : OnWay w g c s ∨ s.status = .failed) (hp : Witness.play s events = .ok s') :
    OnWay w g c s' ∨ s'.status = .failed := by
  induction events generalizing s with
  | nil =>
    cases hp
    exact h
  | cons e rest ih =>
    obtain ⟨s1, A, ha, hrest⟩ := play_cons_eq_ok_iff.mp hp
    have he' := he e List.mem_cons_self
    refine ih (fun e' hm => he e' (List.mem_cons_of_mem _ hm)) ?_ hrest
    rcases h with h | h
    · exact h.step sh hg hs hi he' ha
    · have hrun : s.status = .running := by
        cases he' <;> cases ha <;> exact Current.running ‹_›
      rw [h] at hrun
      cases hrun

/-- The success script of a running stage that is not a merge. -/
theorem forward_successEvents {w : Workflow} (sh : w.Shape) {c : Nat} {s : PipelineState}
    {st : WorkflowStage} (hw : s.workflow = w) (hr : s.status = .running)
    (hs : w.stages[s.stageIndex]? = some st) (hm : st.stage ≠ .merge) :
    c ≤ (successEvents s c).2 ∧
      ∀ e ∈ (successEvents s c).1, Forward w (successEvents s c).2 st.id e := by
  have hcur : s.currentStage = some st := by rw [currentStage, hw, hs]
  simp only [successEvents, hr, hcur, reduceCtorEq, if_false]
  cases hst : st.stage with
  | work role text output =>
    cases output with
    | branch =>
      simp only [List.mem_singleton, forall_eq]
      refine ⟨by omega, .work ?_⟩
      rintro b h p ⟨⟩
      exact ⟨c + 1, le_rfl, rfl⟩
    | result => simpa using Forward.work (by simp)
    | plan => simpa using Forward.work (by simp)
  | submit forge =>
    simp only [List.mem_singleton, forall_eq, le_refl, true_and]
    refine .submit fun hl => ?_
    rw [if_neg]
    simpa [hl] using sh.forge _ _ _ hs hst
  | command command => simpa using Forward.command
  | approval approver count bound =>
    simp only [List.mem_map, le_refl, true_and]
    rintro e ⟨r, -, rfl⟩
    exact .approval
  | fanout source join => simpa using Forward.fanout
  | merge => exact absurd hst hm

/-- The run before it reaches `g`: not started, on its way, or failed. -/
def Upto (w : Workflow) (g c : Nat) (s : PipelineState) : Prop :=
  s = .unchecked "witness" w ∨ OnWay w g c s ∨ s.status = .failed

theorem Upto.not_done {w : Workflow} {g c : Nat} {s : PipelineState} (h : Upto w g c s) :
    s.status ≠ .done := by
  rcases h with rfl | h | h
  · simp [unchecked]
  · simp [h.running]
  · simp [h]

/-- A success turn below `g` stays up to `g`. -/
theorem Upto.turn {w : Workflow} (sh : w.Shape) {g c : Nat} {s s' : PipelineState}
    (hg : w.At g fun st => !st.isKind .approval) (h : Upto w g c s)
    (hlive : s.status = .pending ∨ s.status = .running)
    (hi : s.status = .running → s.stageIndex ≠ g)
    (hp : Witness.play s (successEvents s c).1 = .ok s') :
    Upto w g (successEvents s c).2 s' := by
  rcases h with rfl | h | h
  · simp only [successEvents, unchecked, if_true] at hp ⊢
    obtain ⟨s1, A, ha, hrest⟩ := play_cons_eq_ok_iff.mp hp
    cases hrest
    cases ha with
    | start hp hne hen =>
      exact Or.inr (OnWay.of_entry hg hen ⟨rfl, by simp, by simp, by simp⟩ rfl (Nat.zero_le g))
  · have hlt : s.stageIndex < g := lt_of_le_of_ne h.index (hi h.running)
    obtain ⟨st, hs⟩ : ∃ st, w.stages[s.stageIndex]? = some st :=
      ⟨_, List.getElem?_eq_getElem (hlt.trans hg.lt)⟩
    have hm : st.stage ≠ .merge := fun hm => by
      have := sh.mergeLast _ ⟨st, hs, WorkflowStage.isKind_merge_iff.mpr hm⟩
      have := hg.lt
      omega
    obtain ⟨hc, he⟩ := forward_successEvents (c := c) sh h.workflow h.running hs hm
    have h' : OnWay w g (successEvents s c).2 s := { h with toFresh := h.toFresh.mono hc }
    exact Or.inr (OnWay.play sh hg hs hlt he (Or.inl h') hp)
  · rcases hlive with hl | hl <;> rw [h] at hl <;> cases hl

theorem all_eq_ok_iff {runs : List (Except WorkflowError Unit)} :
    all runs = .ok () ↔ ∀ r ∈ runs, r = .ok () := by
  induction runs with
  | nil => simp [all]
  | cons r rest ih => cases r <;> simp [all, ih]

/-- With the local forge, a command that asks for the change id would fail the success script. -/
theorem localPr_of_run {w : Workflow} (sh : w.Shape) {scenario : String}
    (h : run w none scenario = .ok ()) (hl : w.forgeKind = "local") {k : Nat} {st : WorkflowStage}
    {template : String} {used : List Placeholder} (hs : w.stages[k]? = some st)
    (hst : st.stage = .command template) (hu : commandPlaceholders template = .ok used) :
    .pr ∉ used := by
  intro hpr
  have hk : w.At k fun st => !st.isKind .approval :=
    ⟨st, hs, by simp [WorkflowStage.isKind, hst, Stage.kind]⟩
  refine loop_ne_ok (P := fun _ => Upto w k) (fun _ _ _ => Upto.not_done) ?_ _ (Or.inl rfl) h
  intro d c s s' hp hlive hplay
  refine hp.turn sh hk hlive (fun hr hi => ?_) hplay
  rcases hp with rfl | hp | hp
  · cases hr
  · obtain ⟨s0, st', action, rfl, hs', ha⟩ := hp.arrived hi
    obtain rfl := Option.some.inj (hs.symm.trans hs')
    simp only [requestOf, hst] at ha
    cases hx : expandCommandPlaceholders template (s0.entered k st).commandContext with
    | error e => simp [hx] at ha
    | ok text =>
      refine (expandCommandPlaceholders_isOk_iff hu _).mp ⟨text, hx⟩ .pr hpr ?_
      simpa [CommandContext.value, commandContext] using hp.change hl
  · rw [hp] at hr
    cases hr

/-- A pick asked again without children: the next scripted approval is rejected. -/
structure Stuck (w : Workflow) (f : Nat) (s : PipelineState) : Prop where
  workflow : s.workflow = w
  running : s.status = .running
  index : s.stageIndex = f + 1
  reviewers : s.approvalReviewers = []
  pick : s.pendingPick = none
  children : s.fanoutChildTaskIds = []
  selected : s.selectedFanoutChild = none

theorem Stuck.play_ne_ok {w : Workflow} (sh : w.Shape) {f c : Nat} {s s' : PipelineState}
    (hf : w.At f (·.isPickFanout)) (h : Stuck w f s) :
    Witness.play s (successEvents s c).1 ≠ .ok s' := by
  obtain ⟨st, hs, hk⟩ := sh.pickApproval f hf
  obtain ⟨approver, count, bound, hst⟩ := WorkflowStage.isKind_approval_iff.mp hk
  have hcount := sh.count _ _ _ _ _ hs hst
  have hpicks : s.workflow.picks s.stageIndex = true := by
    rw [h.workflow, h.index]
    exact sh.picks_iff.mpr ⟨f, hf, rfl⟩
  have hcur : s.currentStage = some st := by rw [currentStage, h.workflow, h.index, hs]
  have hchild : selectedChild s = none := by
    simp [selectedChild, h.selected, h.children]
  -- The script holds at least one approval, and it selects no child.
  obtain ⟨r, rest, hrev⟩ : ∃ r rest, freshReviewers s count = r :: rest := by
    obtain ⟨m, rfl⟩ : ∃ m, count = m + 1 := ⟨count - 1, by omega⟩
    simp only [freshReviewers, h.reviewers, List.contains_nil, Bool.not_false,
      List.filter_true, List.length_nil, Nat.sub_zero]
    rw [show (m + 1) * 2 = 2 * m + 1 + 1 by omega, List.range_succ_eq_map]
    exact ⟨_, _, rfl⟩
  intro hp
  simp only [successEvents, h.running, hcur, hst, hrev, hchild, reduceCtorEq, if_false,
    List.map_cons] at hp
  obtain ⟨s1, A, ha, -⟩ := play_cons_eq_ok_iff.mp hp
  have hno : ∀ {next : PipelineState}, s.choosePick none ≠ .ok next := by
    intro next hnext
    rcases choosePick_eq hnext with ⟨-, -, hp'⟩ | ⟨winner, hw, -⟩
    · rw [hpicks] at hp'
      cases hp'
    · rw [h.children] at hw
      cases hw
  cases ha with
  | approvalCounted _ _ _ _ hpick => exact hno hpick
  | approvalMet _ _ _ _ hpick => exact hno hpick

theorem head_injective {j k : Nat} (h : head j = head k) : j = k := by
  simp only [head, toString, String.append_right_inj] at h
  have := congrArg (fun s => Nat.ofDigitChars 10 s.toList 0) h
  simpa [Nat.ofDigitChars_toDigits] using this

/-- A new commit at a fanout after a head-bound pick asks that pick again, without children. -/
theorem Stuck.of_commit {w : Workflow} (sh : w.Shape) {f g c : Nat} {s s' : PipelineState}
    {A : List PipelineAction} (hb : w.At (f + 1) (·.isBoundApproval))
    (hfirst : ∀ j ≤ f, ¬ w.At j (·.isHeadBound)) (hfg : f + 1 < g)
    (hg : w.At g (·.isKind .fanout)) (h : OnWay w g c s) (hi : s.stageIndex = g)
    (ha : Accepted s (.commitCreated (head (c + 1)) (patch (c + 1))) s' A) : Stuck w f s' := by
  have hw := h.workflow
  have fresh : ∀ {x}, (∃ k ≤ c, x = head k) → x ≠ head (c + 1) := by
    rintro x ⟨k, hk, rfl⟩ hx
    have := head_injective hx
    omega
  obtain ⟨st, hs, hk⟩ := hg
  obtain ⟨s0, st0, -, hs0, hst0, -⟩ := h.arrived hi
  obtain rfl := Option.some.inj (hs.symm.trans hst0)
  have hcs : w.stages[s.stageIndex]? = some st := by rw [hi, hs]
  have hflight : s.mergeInFlight = false := by
    rw [Bool.eq_false_iff]
    intro hm
    rw [mergeInFlight_iff h.running (hw ▸ hcs)] at hm
    cases WorkflowStage.isKind_unique hk (WorkflowStage.isKind_merge_iff.mpr hm)
  cases ha with
  | commitKnown _ _ _ _ hh => exact absurd rfl (fresh (h.head _ hh))
  | commitDeferred hf => exact absurd hf (by simp [hflight])
  | commitCreated hr hs' hf hwork hh hap =>
    obtain ⟨sb, hsb, hbb⟩ := hb
    obtain ⟨approver, count, hsk⟩ := WorkflowStage.isBoundApproval_iff.mp hbb
    set s1 := s.recordNewHead (head (c + 1)) (patch (c + 1)) with hs1
    have hsb1 : s1.workflow.stages[f + 1]? = some sb := by rw [← hsb, ← hw]; rfl
    -- No record covers the new head, so the pick is the first stage to ask again.
    have hnone : s1.approvalForStage sb = false := by
      simp only [approvalForStage, hsk, approvalSatisfied, if_true, Bool.and_eq_false_iff,
        List.contains_eq_mem, decide_eq_false_iff_not]
      right
      intro hmem
      obtain ⟨a, ha, hah⟩ := List.mem_map.mp hmem
      have ha' : a ∈ s.approvals :=
        List.mem_of_mem_filter (List.mem_of_mem_filter ha)
      exact fresh (h.approvals a ha' _ hah) rfl
    have hl : s1.landing (f + 1) = f + 1 := landing_eq_self hsb1 hnone
    have htarget : s1.recheckTarget s1.stageIndex = some (f + 1) := by
      have hw1 : s1.workflow = w := hw
      have hi1 : s1.stageIndex = g := hi
      rw [recheckTarget_eq_some_iff (hw1 ▸ sh) (by
        rw [hi1, hw1]; exact (List.getElem?_eq_some_iff.mp hs).1), hi1, hw1]
      exact ⟨by omega, ⟨sb, hsb, WorkflowStage.isHeadBound_iff.mpr (Or.inr hbb)⟩,
        fun j hj => hfirst j (by omega)⟩
    simp only [applyHeadChange, hr, ne_eq, not_true_eq_false, if_false, hh, ← hs1,
      recheckForNewHead, htarget] at hap
    cases enterStage_eq_ok_iff.mp hap with
    | asked hs2 =>
      rw [hl, hsb1] at hs2
      obtain rfl := Option.some.inj hs2
      have hnf : sb.isKind .fanout = false := by simp [WorkflowStage.isKind, hsk, Stage.kind]
      have hch : s.fanoutChildTaskIds = [] := by rw [hs0]; simp [hk]
      have hsel : s.selectedFanoutChild = none := by rw [hs0]; simp [hk]
      refine ⟨entered_workflow.trans hw, entered_status.trans hr, hl, rfl, rfl, ?_, ?_⟩
      · rw [entered_fanoutChildTaskIds, hnf]
        exact hch
      · simp only [entered_selectedFanoutChild, hnf, hs1, recordNewHead, invalidateHeadBound,
          dropApprovals, clearPartial]
        split_ifs <;> simp_all
    | unexpanded hs2 hcmd =>
      rw [hl, hsb1] at hs2
      obtain rfl := Option.some.inj hs2
      rw [hsk] at hcmd
      cases hcmd
    | finished hs2 => simp [hl, hsb1] at hs2

/-- A head-bound pick with no check before its fanout is followed by no other fanout. -/
theorem picksSafe_of_run {w : Workflow} (sh : w.Shape) {f g : Nat} {scenario : String}
    (h : run w (some (g, .newCommit)) scenario = .ok ()) (hf : w.At f (·.isPickFanout))
    (hb : w.At (f + 1) (·.isBoundApproval)) (hfirst : ∀ j ≤ f, ¬ w.At j (·.isHeadBound))
    (hfg : f + 1 < g) : ¬ w.At g (·.isKind .fanout) := by
  intro hg
  have hg' : w.At g fun st => !st.isKind .approval := by
    obtain ⟨st, hs, hk⟩ := hg
    refine ⟨st, hs, ?_⟩
    simp only [Bool.not_eq_true', Bool.eq_false_iff]
    intro hcon
    cases WorkflowStage.isKind_unique hk hcon
  have hstart : Upto w g 0 (.unchecked "witness" w) := Or.inl rfl
  refine loop_ne_ok (P := fun d c s => if d then Stuck w f s else Upto w g c s) ?_ ?_ _
    (d := false) hstart h
  · intro d c s hp
    cases d with
    | false => exact Upto.not_done hp
    | true => simp [Stuck.running hp]
  · intro d c s s' hp hlive hplay
    cases d with
    | true =>
      simp only [turnEvents, Bool.not_true, Bool.false_and, Bool.false_eq_true, if_false] at hplay
      exact absurd hplay (Stuck.play_ne_ok sh hf hp)
    | false =>
      by_cases hat : s.status = .running ∧ s.stageIndex = g
      · obtain ⟨hr, hi⟩ := hat
        rcases hp with rfl | hp | hp
        · cases hr
        · simp only [turnEvents, hr, hi, Bool.not_false, decide_true, Bool.and_true, if_true]
            at hplay ⊢
          obtain ⟨st, hs, hk⟩ := hg
          have hm : st.isKind .merge = false := by
            rw [Bool.eq_false_iff]
            intro hm
            cases WorkflowStage.isKind_unique hk hm
          have hcur : s.currentStage = some st := by rw [currentStage, hp.workflow, hi, hs]
          simp only [disturbanceEvents, hcur, hm, Bool.false_eq_true, if_false] at hplay ⊢
          obtain ⟨s1, A, ha, hrest⟩ := play_cons_eq_ok_iff.mp hplay
          cases hrest
          exact Stuck.of_commit sh hb hfirst hfg ⟨st, hs, hk⟩ hp hi ha
        · rw [hp] at hr
          cases hr
      · have ht : turnEvents (some (g, .newCommit)) false s c = (successEvents s c, false) := by
          simp only [turnEvents, Bool.not_false, Bool.true_and]
          rw [if_neg]
          simpa using hat
        rw [ht] at hplay ⊢
        exact Upto.turn sh hg' hp hlive (fun hr hi => hat ⟨hr, hi⟩) hplay

end Witness

/-- The static rules and what the scripted runs rule out. -/
structure Workflow.Sound (w : Workflow) : Prop extends w.Shape where
  nonempty : w.stages ≠ []
  picksSafe : ∀ f g, w.At f (·.isPickFanout) → w.At (f + 1) (·.isBoundApproval) →
    (∀ j ≤ f, ¬ w.At j (·.isHeadBound)) → f + 1 < g → ¬ w.At g (·.isKind .fanout)
  localPr : w.forgeKind = "local" → ∀ (i : Nat) (st : WorkflowStage) (c : String)
    (used : List Placeholder), w.stages[i]? = some st → st.stage = .command c →
    commandPlaceholders c = .ok used → .pr ∉ used

theorem Workflow.staticErrors_of_validate {w : Workflow} {roles : List String}
    (h : w.validate roles = .ok ()) : w.staticErrors roles = [] := by
  unfold Workflow.validate at h
  split at h
  · assumption
  · cases h

/-- What is bound to a head needs a repository. -/
theorem ValidatedWorkflow.requiresRepo (v : ValidatedWorkflow) {st : WorkflowStage}
    (hs : st ∈ v.workflow.stages) (hn : st.needsHead = true) : v.workflow.requiresRepo = true := by
  obtain ⟨roles, hv⟩ := v.accepted
  have h := Workflow.staticErrors_of_validate hv
  simp only [Workflow.staticErrors, List.append_eq_nil_iff] at h
  have hrepo : v.workflow.repoErrors = [] := h.1.1.1.1.1.2
  unfold Workflow.repoErrors at hrepo
  split_ifs at hrepo with hno
  rw [Bool.and_eq_true, not_and, Bool.not_eq_true', Bool.not_eq_false] at hno
  exact hno (List.any_eq_true.mpr ⟨st, hs, by rw [hn, Bool.or_true]⟩)

theorem ValidatedWorkflow.sound (v : ValidatedWorkflow) : v.workflow.Sound := by
  obtain ⟨w, roles, h⟩ := v
  simp only
  have hstatic := Workflow.staticErrors_of_validate h
  have hwitness : completabilityWitness w = .ok () := by
    unfold Workflow.validate at h
    rw [hstatic] at h
    simp only at h
    split at h
    · assumption
    · cases h
  have sh := Workflow.shape_of_staticErrors hstatic
  have runs := Witness.all_eq_ok_iff.mp hwitness
  have success := runs _ List.mem_cons_self
  refine { sh with nonempty := ?_, picksSafe := ?_, localPr := ?_ }
  · intro hnil
    refine Witness.loop_ne_ok (P := fun _ _ s => s = .unchecked "witness" w) ?_ ?_ _ rfl success
    · rintro d c s rfl
      simp [unchecked]
    · rintro d c s s' rfl - hplay
      simp only [Witness.turnEvents, Witness.successEvents, unchecked, if_true] at hplay
      obtain ⟨s1, A, ha, -⟩ := Witness.play_cons_eq_ok_iff.mp hplay
      cases ha with
      | start _ hne => exact absurd hnil hne
  · intro f g hf hb hfirst hfg hg
    obtain ⟨st, hs, hk⟩ := hg
    refine Witness.picksSafe_of_run sh (runs (Witness.run w (some (g, .newCommit))
      s!"new commit at `{st.id}`") ?_) hf hb hfirst hfg ⟨st, hs, hk⟩
    refine List.mem_cons_of_mem _ (List.mem_append_right _ ?_)
    rw [Witness.commitRuns, List.mem_map]
    refine ⟨(st, g), List.mem_filter.mpr ⟨List.mk_mem_zipIdx_iff_getElem?.mpr hs, ?_⟩, rfl⟩
    obtain ⟨sb, hsb, hbb⟩ := hb
    obtain ⟨j, hj, hbr⟩ := sh.earlierBranch (f + 1) ⟨sb, hsb,
      WorkflowStage.needsHead_of_isHeadBound (WorkflowStage.isHeadBound_iff.mpr (Or.inr hbb))⟩
    exact Workflow.any_take_iff.mpr ⟨j, by simp only; omega, hbr⟩
  · exact fun hl i st c used hs hst hu => Witness.localPr_of_run sh success hl hs hst hu

end Agend.Pipeline
