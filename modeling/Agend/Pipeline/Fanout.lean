import Agend.Pipeline.Outstanding

/-! Fanout picks stay inside the children of the fanout they pick for. -/
namespace Agend.Pipeline

open PipelineState

/-- The winner and the siblings of a cancellation. -/
def PipelineAction.cancels : PipelineAction → Option (String × List String)
  | .cancelFanoutSiblings winner siblings => some (winner, siblings)
  | _ => none

/-- What the run of one fanout reported: its children, its winners, the siblings it cancelled. -/
structure FanoutRun where
  stageId : Option String
  children : List String
  winners : List String
  cancelled : List String
  deriving DecidableEq

namespace FanoutRun

/-- A completed fanout starts a run of its own. -/
def begin (run : FanoutRun) : PipelineEvent → FanoutRun
  | .fanoutCompleted stageId _ children _ => ⟨some stageId, children, [], []⟩
  | _ => run

def observe (run : FanoutRun) (t : PipelineTransition) : FanoutRun :=
  let run := run.begin t.event
  let cancels := t.output.filterMap PipelineAction.cancels
  { run with
    winners := run.winners ++ (t.after.selectedFanoutChild.toList ++ cancels.map Prod.fst)
    cancelled := run.cancelled ++ cancels.flatMap Prod.snd }

/-- The run of the fanout completed last, from the steps of a task, newest first. -/
def last : List PipelineTransition → FanoutRun
  | [] => ⟨none, [], [], []⟩
  | t :: earlier => (last earlier).observe t

end FanoutRun

/-- A task at `i` has passed the fanout at `g` and no later one; after a recheck from before `g`
it has passed none since. -/
def Past (w : Workflow) (g i : Nat) : Prop :=
  (∀ k < i, w.At k (·.isKind .fanout) → k ≤ g) ∧
    (g < i ∨ ∃ t ≤ i, FirstBound w t ∧ ∀ k, t ≤ k → k < i → ¬ w.At k (·.isKind .fanout))

namespace Past

variable {w : Workflow} {g i : Nat}

theorem self : Past w g (g + 1) := ⟨fun k hk _ => by omega, Or.inl (by omega)⟩

/-- Going on without a fanout in between. -/
theorem forward (h : Past w g i) {j : Nat} (hj : i ≤ j)
    (hno : ∀ k, i ≤ k → k < j → ¬ w.At k (·.isKind .fanout)) : Past w g j := by
  refine ⟨fun k hk hf => ?_, ?_⟩
  · rcases Nat.lt_or_ge k i with hlt | hge
    · exact h.1 k hlt hf
    · exact absurd hf (hno k hge hk)
  · rcases h.2 with hlt | ⟨t, ht, hb, hclear⟩
    · exact Or.inl (by omega)
    · refine Or.inr ⟨t, by omega, hb, fun k h1 h2 => ?_⟩
      rcases Nat.lt_or_ge k i with hlt | hge
      · exact hclear k h1 hlt
      · exact hno k hge h2

theorem recheck (h : Past w g i) {t : Nat} (hle : t ≤ i) (ht : FirstBound w t) : Past w g t :=
  ⟨fun k hk => h.1 k (by omega), Or.inr ⟨t, le_rfl, ht, fun k h1 h2 => by omega⟩⟩

theorem back (h : Past w g i) {t : Nat} (hle : t ≤ i) (hg : g < t) : Past w g t :=
  ⟨fun k hk => h.1 k (by omega), Or.inl hg⟩

/-- At its approval, the fanout passed last is the one that is picked for. -/
theorem eq_of_pick (so : w.Sound) {f : Nat} (h : Past w g (f + 1)) (hg : w.At g (·.isKind .fanout))
    (hf : w.At f (·.isPickFanout)) : g = f := by
  obtain ⟨sf, hsf, hpf⟩ := hf
  have hff := WorkflowStage.isKind_fanout_of_isPickFanout hpf
  have hfg : f ≤ g := h.1 f (by omega) ⟨sf, hsf, hff⟩
  rcases h.2 with hlt | ⟨t, ht, hb, hclear⟩
  · omega
  · have htf : f + 1 = t := by
      by_contra hne
      exact hclear f (by omega) (by omega) ⟨sf, hsf, hff⟩
    obtain ⟨sa, hsa, hka⟩ := so.pickApproval f ⟨sf, hsf, hpf⟩
    have hgne : g ≠ f + 1 := by
      rintro rfl
      rw [Workflow.at_iff hsa] at hg
      cases WorkflowStage.isKind_unique hka hg
    have hbound : w.At (f + 1) (·.isBoundApproval) := by
      obtain ⟨st, hs, hbs⟩ := htf ▸ hb.1
      obtain rfl := Option.some.inj (hs.symm.trans hsa)
      refine ⟨st, hs, ?_⟩
      rcases WorkflowStage.isHeadBound_iff.mp hbs with hc | hba
      · cases WorkflowStage.isKind_unique hka hc
      · exact hba
    by_contra hne
    exact so.picksSafe f g ⟨sf, hsf, hpf⟩ hbound (fun j hj => hb.2 j (by omega)) (by omega) hg

end Past

/-- The live children at position `i` belong to the run: it has passed their fanout, and they
outlive every cancellation. -/
structure Tracks (run : FanoutRun) (s : PipelineState) (i : Nat) : Prop where
  children : ∀ c ∈ s.fanoutChildTaskIds, c ∈ run.children ∧ c ∉ run.cancelled
  selected : ∀ c ∈ s.selectedFanoutChild, c ∈ run.winners
  winners : ∀ c ∈ run.winners, c ∉ run.cancelled
  settled : run.winners ≠ [] → s.fanoutChildTaskIds.length ≤ 1
  nodup : run.cancelled.Nodup
  owner : s.fanoutChildTaskIds ≠ [] → ∃ g st, s.workflow.stages[g]? = some st ∧
    st.isKind .fanout = true ∧ run.stageId = some st.id ∧ Past s.workflow g i

variable {taskId : String} {w : ValidatedWorkflow} {s s' : PipelineState} {e : PipelineEvent}
  {A : List PipelineAction} {run : FanoutRun} {i : Nat}

/-- Dropping approvals may forget the winner, nothing else. -/
theorem PipelineState.selected_of_dropApprovals {keep : ApprovalRecord → Bool} {c : String}
    (h : c ∈ (s.dropApprovals keep).selectedFanoutChild) : c ∈ s.selectedFanoutChild := by
  simp only [dropApprovals, clearPartial] at h
  split_ifs at h
  · cases h
  · exact h

namespace Tracks

/-- Children may be forgotten, and the position may move as far as the fanouts allow. -/
theorem shrink (h : Tracks run s i) {j : Nat} (hw : s'.workflow = s.workflow)
    (hc : s'.fanoutChildTaskIds = s.fanoutChildTaskIds ∨ s'.fanoutChildTaskIds = [])
    (hs : ∀ c ∈ s'.selectedFanoutChild, c ∈ s.selectedFanoutChild)
    (hp : s'.fanoutChildTaskIds ≠ [] → ∀ g, s.workflow.At g (·.isKind .fanout) →
      Past s.workflow g i → Past s.workflow g j) : Tracks run s' j where
  children c hm := by
    rcases hc with hc | hc <;> rw [hc] at hm
    · exact h.children c hm
    · cases hm
  selected c hm := h.selected c (hs c hm)
  winners := h.winners
  settled hne := by
    rcases hc with hc | hc <;> rw [hc]
    · exact h.settled hne
    · simp
  nodup := h.nodup
  owner hne := by
    rcases hc with hc | hc
    · obtain ⟨g, st, hst, hk, hid, hpast⟩ := h.owner (hc ▸ hne)
      exact ⟨g, st, by rw [hw]; exact hst, hk, hid, by rw [hw]; exact hp hne g ⟨st, hst, hk⟩ hpast⟩
    · exact absurd hc hne

theorem same (h : Tracks run s i) (hw : s'.workflow = s.workflow)
    (hc : s'.fanoutChildTaskIds = s.fanoutChildTaskIds)
    (hs : ∀ c ∈ s'.selectedFanoutChild, c ∈ s.selectedFanoutChild) : Tracks run s' i :=
  h.shrink hw (Or.inl hc) hs fun _ _ _ hp => hp

/-- The step reports what the run knows already, or the winner it just fixed. -/
theorem observe {t : PipelineTransition} {l : List String}
    (h : Tracks { run.begin t.event with
      winners := (run.begin t.event).winners ++ l
      cancelled := (run.begin t.event).cancelled ++
        (t.output.filterMap PipelineAction.cancels).flatMap Prod.snd } t.after i)
    (hw : ∀ c ∈ (t.output.filterMap PipelineAction.cancels).map Prod.fst, c ∈ l) :
    Tracks (run.observe t) t.after i := by
  have sub : ∀ c ∈ (run.observe t).winners, c ∈ (run.begin t.event).winners ++ l := by
    intro c hc
    rcases List.mem_append.mp hc with hc | hc
    · exact List.mem_append_left _ hc
    rcases List.mem_append.mp hc with hc | hc
    · exact h.selected c (Option.mem_toList.mp hc)
    · exact List.mem_append_right _ (hw c hc)
  refine ⟨h.children, fun c hc => ?_, fun c hc => h.winners c (sub c hc), fun hne => h.settled ?_,
    h.nodup, h.owner⟩
  · exact List.mem_append_right _ (List.mem_append_left _ (Option.mem_toList.mpr hc))
  · obtain ⟨c, hc⟩ := List.exists_mem_of_ne_nil _ hne
    exact List.ne_nil_of_mem (sub c hc)

theorem observe_quiet {t : PipelineTransition} (h : Tracks (run.begin t.event) t.after i)
    (hA : t.output.filterMap PipelineAction.cancels = []) : Tracks (run.observe t) t.after i :=
  Tracks.observe (l := []) (by simpa [hA] using h) (by simp [hA])

/-- Fixing a winner cancels live children only, each of them once. -/
theorem keepOnlyWinner (h : Tracks run s i) (hnd : s.fanoutChildTaskIds.Nodup) {winner : String}
    (hw : winner ∈ s.fanoutChildTaskIds) :
    Tracks { run with
      winners := run.winners ++ [winner]
      cancelled := run.cancelled ++ s.fanoutChildTaskIds.filter (· ≠ winner) }
      (s.keepOnlyWinner winner).1 i := by
  have hlive := h.children winner hw
  have siblings : ∀ c ∈ s.fanoutChildTaskIds.filter (· ≠ winner),
      c ∈ s.fanoutChildTaskIds ∧ c ≠ winner := by
    intro c hc
    simpa using hc
  have fresh : ∀ c ∈ run.winners, c ∉ s.fanoutChildTaskIds.filter (· ≠ winner) := by
    intro c hc hm
    -- A run with a winner has one child left, the winner itself.
    have hone := h.settled (List.ne_nil_of_mem hc)
    obtain ⟨hm, hne⟩ := siblings c hm
    obtain ⟨x, hx⟩ := List.length_eq_one_iff.mp
      (le_antisymm hone (List.length_pos_of_mem hw))
    rw [hx, List.mem_singleton] at hm hw
    exact hne (hm.trans hw.symm)
  refine ⟨fun c hc => ?_, fun c hc => ?_, fun c hc hm => ?_, fun _ => le_rfl, ?_, fun _ => ?_⟩
  · rw [List.mem_singleton.mp hc]
    refine ⟨hlive.1, fun hm => ?_⟩
    rcases List.mem_append.mp hm with hm | hm
    · exact hlive.2 hm
    · exact (siblings winner hm).2 rfl
  · obtain rfl := Option.some.inj hc
    exact List.mem_append_right _ (List.mem_singleton_self _)
  · rcases List.mem_append.mp hc with hc | hc <;> rcases List.mem_append.mp hm with hm | hm
    · exact h.winners c hc hm
    · exact fresh c hc hm
    · rw [List.mem_singleton.mp hc] at hm
      exact hlive.2 hm
    · exact (siblings c hm).2 (List.mem_singleton.mp hc)
  · refine List.Nodup.append h.nodup (hnd.filter _) ?_
    intro c hc hm
    exact (h.children c (siblings c hm).1).2 hc
  · exact h.owner (List.ne_nil_of_mem hw)

/-- Entry keeps the children of the run, or clears them at the next fanout. -/
theorem entry {s1 : PipelineState} (h : Tracks run s1 i) (hi : i ≤ s1.workflow.stages.length)
    (he : Entry s1 i s' A) :
    Tracks run s' s'.stageIndex ∧ A.filterMap PipelineAction.cancels = [] := by
  have hidx := he.stageIndex hi
  have hclear : ∀ k, i ≤ k → k < s1.landing i → ¬ s1.workflow.At k (·.isKind .fanout) := by
    rintro k h1 h2 ⟨st, hs, hk⟩
    have hsat := satisfied_of_lt_landing h1 h2
    rw [Workflow.at_iff hs] at hsat
    cases WorkflowStage.isKind_unique (approvalForStage_isKind hsat) hk
  have hpast : ∀ g, s1.workflow.At g (·.isKind .fanout) → Past s1.workflow g i →
      Past s1.workflow g s'.stageIndex := by
    intro g _ hp
    rw [hidx]
    exact hp.forward (le_landing i) hclear
  have entered : ∀ {st : WorkflowStage}, s'.fanoutChildTaskIds =
        (if st.isKind .fanout then [] else s1.fanoutChildTaskIds) →
      s'.selectedFanoutChild = (if st.isKind .fanout then none else s1.selectedFanoutChild) →
      Tracks run s' s'.stageIndex := by
    intro st hc hs
    refine h.shrink he.workflow ?_ ?_ fun _ => hpast
    · rw [hc]
      split_ifs
      · exact Or.inr rfl
      · exact Or.inl rfl
    · rw [hs]
      split_ifs
      · rintro c ⟨⟩
      · exact fun c hm => hm
  cases he with
  | asked hs hm ha =>
    refine ⟨entered entered_fanoutChildTaskIds entered_selectedFanoutChild, ?_⟩
    have := (requestOf_isRequest ha).2
    rename_i action
    cases action <;> first | rfl | cases this
  | unexpanded hs hk he =>
    exact ⟨entered entered_fanoutChildTaskIds entered_selectedFanoutChild, rfl⟩
  | finished hs =>
    refine ⟨h.shrink ?_ ?_ ?_ fun _ => hpast, rfl⟩
    · split_ifs <;> rfl
    · left
      split_ifs <;> rfl
    · split_ifs <;> exact fun c hm => hm

theorem returned {s1 : PipelineState} (h : Tracks run s1 i) {t : Nat} (ht : t ≤ i)
    (reason : String) : Tracks run (s1.returned t reason) t := by
  obtain ⟨hc, hs⟩ := returned_fanout (s := s1) t reason
  refine h.shrink returned_workflow ?_ ?_ fun hne g hg hp => hp.back ht ?_
  · rw [hc]
    split_ifs
    · exact Or.inr rfl
    · exact Or.inl rfl
  · rw [hs]
    split_ifs
    · rintro c ⟨⟩
    · exact fun c hm => selected_of_dropApprovals hm
  · -- The children survive only if every fanout is before the target.
    rw [hc] at hne
    split_ifs at hne with hf
    · exact absurd rfl hne
    · by_contra hcon
      exact hf (fanoutAtOrAfter_iff.mpr ⟨g, by omega, hg⟩)

theorem newHead (h : Tracks run s i) (hrec : s.Records) {change : PendingHeadChange}
    {s1 : PipelineState} (hn : NewHead s change s1) : Tracks run s1 i := by
  refine h.same hn.frame.workflow hn.children ?_
  cases hn with
  | fresh => exact fun c hm => selected_of_dropApprovals hm
  | kept hc ho hp hne =>
    rw [selected_rebased hrec ho hp]
    exact fun c hm => hm

theorem headMove (h : Tracks run s s.stageIndex) (hl : s.Live) {change : PendingHeadChange}
    (hm : HeadMove s change s' A) :
    Tracks run s' s'.stageIndex ∧ A.filterMap PipelineAction.cancels = [] := by
  have hlen := hl.index_lt
  cases hm with
  | ignored => exact ⟨h, rfl⟩
  | recorded hn =>
    have := h.newHead hl.ready.records hn
    exact ⟨hn.frame.stageIndex ▸ this, rfl⟩
  | @rechecked s1 _ t _ hn ht hb hk hland he =>
    have hw := hn.frame.workflow
    have h1 := h.newHead hl.ready.records hn
    refine entry (i := t) ?_ (by rw [hw]; omega) he
    rcases hk with hbound | ⟨rfl, -⟩
    · exact h1.shrink rfl (Or.inl rfl) (fun c hm => hm) fun _ g _ hp =>
        hp.recheck ht (hw ▸ ⟨hbound, hb⟩)
    · exact h1
  | returned hc hd ht =>
    rcases hd with ⟨-, hn⟩ | ⟨-, rfl⟩
    · exact ⟨(h.newHead hl.ready.records hn).returned ht.le _, rfl⟩
    · have hclear : Tracks run s.clearPartial s.stageIndex := h.same rfl rfl fun c hm => hm
      exact ⟨hclear.returned ht.le _, rfl⟩

theorem failMove (h : Tracks run s s.stageIndex) {reason : String} (hm : FailMove s reason s' A) :
    Tracks run s' s'.stageIndex ∧ A.filterMap PipelineAction.cancels = [] := by
  cases hm with
  | returned hf htarget ht => exact ⟨h.returned ht.le _, rfl⟩
  | failed => exact ⟨h.same rfl rfl fun c hm => hm, rfl⟩

theorem mergeBack (so : s.workflow.Sound) (hl : s.Live) (h : Tracks run s s.stageIndex)
    (hm : MergeBack s s' A) :
    Tracks run s' s'.stageIndex ∧ A.filterMap PipelineAction.cancels = [] := by
  have h0 : Tracks run { s with pendingHeadChanges := [] } s.stageIndex :=
    h.same rfl rfl fun c hm => hm
  cases hm with
  | repeated ht hb he =>
    have hlen := hl.index_lt
    refine entry (h0.shrink rfl (Or.inl rfl) (fun c hm => hm) fun _ g _ hp => hp.recheck ht hb) ?_ he
    exact ht.trans hlen.le
  | moved hf happ =>
    obtain ⟨s1, B, heq, -, -, -, hP⟩ := applyPending_rule
      (s := { s with pendingHeadChanges := [] })
      (P := fun s1 last => Tracks run s1 s1.stageIndex ∧
        last.filterMap PipelineAction.cancels = [])
      (fun s1 s2 change last B so1 h1 _ hmv hP => by
        obtain ⟨h2, hB⟩ := hP.1.headMove h1 hmv
        refine ⟨h2, ?_⟩
        split_ifs
        · exact hP.2
        · exact hB)
      so (.live hl.clearPending) rfl s.pendingHeadChanges [] ⟨h0, rfl⟩
    rw [heq] at happ
    cases happ
    exact hP

/-- The stage after one that is no fanout. -/
theorem next (h : Tracks run s s.stageIndex) {st : WorkflowStage} {id : String} {n : Nat}
    (hc : Current s st id n) (hk : st.isKind .fanout = false) : Tracks run s (s.stageIndex + 1) := by
  refine h.shrink rfl (Or.inl rfl) (fun c hm => hm) fun _ g _ hp => hp.forward (by omega) ?_
  intro k h1 h2 hf
  obtain rfl : k = s.stageIndex := by omega
  rw [Workflow.at_iff hc.stage, hk] at hf
  cases hf

/-- A completed fanout offers exactly the children it reported. -/
theorem completed {st : WorkflowStage} {id : String} {n : Nat}
    (hc : Current s st id n) (hk : st.isKind .fanout = true) (children : List String) :
    Tracks ⟨some id, children, [], []⟩
      { s with selectedFanoutChild := none, fanoutChildTaskIds := children }
      (s.stageIndex + 1) where
  children c hm := ⟨hm, by simp⟩
  selected c hm := by cases hm
  winners c hm := by cases hm
  settled hne := absurd rfl hne
  nodup := List.nodup_nil
  owner _ := ⟨s.stageIndex, st, hc.stage, hk, by rw [hc.id], .self⟩

end Tracks

theorem PipelineState.keepOnlyWinner_cancels (s : PipelineState) (winner : String) :
    ((s.keepOnlyWinner winner).2.filterMap PipelineAction.cancels).flatMap Prod.snd =
        s.fanoutChildTaskIds.filter (· ≠ winner) ∧
      ∀ c ∈ ((s.keepOnlyWinner winner).2.filterMap PipelineAction.cancels).map Prod.fst,
        c = winner := by
  simp only [keepOnlyWinner]
  split_ifs with he
  · exact ⟨(List.isEmpty_iff.mp he).symm, by simp⟩
  · exact ⟨by simp [PipelineAction.cancels], by simp [PipelineAction.cancels]⟩

/-- A winner is fixed and the next stage entered. -/
theorem Tracks.picked {s1 : PipelineState} {winner : String} {B : List PipelineAction}
    (h : Tracks (run.begin e) s1 i) (hnd : s1.fanoutChildTaskIds.Nodup)
    (hw : winner ∈ s1.fanoutChildTaskIds) (hi : i ≤ s1.workflow.stages.length)
    (he : Entry (s1.keepOnlyWinner winner).1 i s' B) (before : PipelineState) :
    Tracks (run.observe ⟨before, e, s', (s1.keepOnlyWinner winner).2 ++ B⟩) s' s'.stageIndex := by
  obtain ⟨hsib, hwin⟩ := s1.keepOnlyWinner_cancels winner
  obtain ⟨h', hB⟩ := (h.keepOnlyWinner hnd hw).entry hi he
  have hA : ((s1.keepOnlyWinner winner).2 ++ B).filterMap PipelineAction.cancels =
      (s1.keepOnlyWinner winner).2.filterMap PipelineAction.cancels := by
    rw [List.filterMap_append, hB, List.append_nil]
  refine Tracks.observe (l := [winner]) ?_ ?_
  · simp only [hA, hsib]
    exact h'
  · simp only [hA]
    intro c hc
    rw [hwin c hc]
    exact List.mem_singleton_self _

theorem Tracks.completeApproval {s1 : PipelineState} {id : String} {bound : Bool}
    {head : Option String} (he : s1.completeApproval id bound head = .ok (s', A))
    (hb : run.begin e = run) (h : Tracks run s1 (s1.stageIndex + 1))
    (hnd : s1.fanoutChildTaskIds.Nodup) (hpick : ∀ c ∈ s1.pendingPick, c ∈ s1.fanoutChildTaskIds)
    (hlen : s1.stageIndex + 1 ≤ s1.workflow.stages.length) (before : PipelineState) :
    Tracks (run.observe ⟨before, e, s', A⟩) s' s'.stageIndex := by
  have hrec : Tracks run (s1.recordApproval id bound head) (s1.stageIndex + 1) :=
    h.same rfl rfl fun c hm => hm
  rcases completeApproval_eq_ok he with ⟨-, he⟩ | ⟨winner, B, -, hw, hE, rfl⟩
  · obtain ⟨h', hA⟩ := hrec.entry hlen (enterStage_eq_ok_iff.mp he)
    exact Tracks.observe_quiet (t := ⟨before, e, s', A⟩) (hb.symm ▸ h') hA
  · have hcleared : Tracks (run.begin e)
        { s1.recordApproval id bound head with pendingPick := none } (s1.stageIndex + 1) :=
      hb.symm ▸ hrec.same rfl rfl fun c hm => hm
    exact hcleared.picked hnd (hpick winner hw) hlen (enterStage_eq_ok_iff.mp hE) before

/-- What a step reports agrees with the run it belongs to. -/
theorem Accepted.tracks (so : s.workflow.Sound) (hi : s.Inv) (h : Tracks run s s.stageIndex)
    (ha : Accepted s e s' A) : Tracks (run.observe ⟨s, e, s', A⟩) s' s'.stageIndex := by
  have quiet : ∀ {s' : PipelineState} {A : List PipelineAction} {e : PipelineEvent},
      run.begin e = run →
      Tracks run s' s'.stageIndex ∧ A.filterMap PipelineAction.cancels = [] →
      Tracks (run.observe ⟨s, e, s', A⟩) s' s'.stageIndex := by
    intro s' A e hb hq
    exact Tracks.observe_quiet (t := ⟨s, e, s', A⟩) (by rw [hb]; exact hq.1) hq.2
  have onward : ∀ {st : WorkflowStage} {id : String} {n : Nat}, Current s st id n →
      s.stageIndex + 1 ≤ s.workflow.stages.length := fun hc =>
    (hi.live_of_running hc.running).index_lt
  cases ha with
  | start hp hne he =>
    have hs := hi.unchecked_of_pending hp
    have h0 : Tracks run { s with status := .running } 0 := by
      refine h.shrink rfl (Or.inl rfl) (fun c hm => hm) fun hne => ?_
      rw [hs] at hne
      exact absurd rfl hne
    exact quiet rfl (h0.entry (Nat.zero_le _) (enterStage_eq_ok_iff.mp he))
  | @workCompleted st id n role text output product _ _ hc hst hm he =>
    have hl := hi.live_of_running hc.running
    have hfr : Frame s (s.takeProduct product) := frame_takeProduct
    have hbound := Live.notBound_of_work so hc.stage (WorkflowStage.isKind_work_iff.mpr ⟨_, _, _, hst⟩)
    have h1 : Tracks run (s.takeProduct product) (s.stageIndex + 1) := by
      have hnext := h.next hc (by simp [WorkflowStage.isKind, hst, Stage.kind])
      rcases fanout_takeProduct product (hl.ready.unbound so hbound) with ⟨h1, h2⟩ | ⟨h1, h2, -⟩
      · exact hnext.same hfr.workflow h1 (by rw [h2]; exact fun c hm => hm)
      · refine hnext.shrink hfr.workflow (Or.inr h1) (by rw [h2]; rintro c ⟨⟩) fun hne => ?_
        exact absurd h1 hne
    exact quiet rfl (h1.entry (by rw [hfr.workflow]; exact onward hc) (enterStage_eq_ok_iff.mp he))
  | @submitted st id n forge change _ _ hc hst he =>
    have h1 := h.next hc (by simp [WorkflowStage.isKind, hst, Stage.kind])
    have h2 : Tracks run { s with changeId := change } (s.stageIndex + 1) :=
      h1.same rfl rfl fun c hm => hm
    exact quiet rfl (h2.entry (onward hc) (enterStage_eq_ok_iff.mp he))
  | @commandPassed st id n command _ _ hc hst he =>
    have h1 := h.next hc (by simp [WorkflowStage.isKind, hst, Stage.kind])
    have hfr : Frame s (s.recordPass id s.currentHead) := frame_recordPass
    have h2 : Tracks run (s.recordPass id s.currentHead) (s.stageIndex + 1) := by
      refine h1.same hfr.workflow ?_ ?_
      · unfold recordPass
        split_ifs <;> rfl
      · unfold recordPass
        split_ifs <;> exact fun c hm => hm
    exact quiet rfl (h2.entry (by rw [hfr.workflow]; exact onward hc) (enterStage_eq_ok_iff.mp he))
  | commandFailed hc hst hx he =>
    exact quiet rfl (h.failMove ((hi.live_of_running hc.running).failMove so he))
  | approvalCounted hc hst hb hr hp hlt =>
    refine quiet rfl ⟨?_, rfl⟩
    rcases choosePick_eq hp with ⟨rfl, -⟩ | ⟨_, -, rfl, -⟩
    · exact h.same rfl rfl fun c hm => hm
    · exact h.same rfl rfl fun c hm => hm
  | approvalMet hc hst hb hr hp hge he =>
    have hl := hi.live_of_running hc.running
    have h1 := h.next hc (by simp [WorkflowStage.isKind, hst, Stage.kind])
    have hlen := onward hc
    rcases choosePick_eq hp with ⟨rfl, -⟩ | ⟨chosen, hmem, rfl, -⟩
    · exact Tracks.completeApproval he rfl (h1.same rfl rfl fun c hm => hm) hi.records.children
        (fun c hc => (hl.pick c hc).1) hlen _
    · refine Tracks.completeApproval he rfl (h1.same rfl rfl fun c hm => hm) hi.records.children
        (fun c hc => ?_) hlen _
      obtain rfl := Option.some.inj hc
      exact hmem
  | changesRequested hc hst hb he =>
    exact quiet rfl (h.failMove ((hi.live_of_running hc.running).failMove so he))
  | commitKnown _ hr hs hw hh =>
    refine quiet rfl ⟨?_, rfl⟩
    split_ifs
    · exact h.same rfl rfl fun c hm => hm
    · exact h
  | commitDeferred hf hw hh => exact quiet rfl ⟨h.same rfl rfl fun c hm => hm, rfl⟩
  | commitCreated hr hs hf hw hh he =>
    have hl := hi.live_of_running hr
    exact quiet rfl (h.headMove hl (hl.headMove so he))
  | advanceDeferred hf hw => exact quiet rfl ⟨h.same rfl rfl fun c hm => hm, rfl⟩
  | mainAdvanced hr hs hf hw he =>
    have hl := hi.live_of_running hr
    exact quiet rfl (h.headMove hl (hl.headMove so he))
  | @fanoutCompleted st id n source join children _ _ hc hst hj hch he =>
    have h1 := Tracks.completed hc (WorkflowStage.isKind_fanout_iff.mpr ⟨_, _, hst⟩) children
    obtain ⟨h2, hA⟩ := h1.entry (onward hc) (enterStage_eq_ok_iff.mp he)
    exact Tracks.observe_quiet (t := ⟨s, .fanoutCompleted id n children none, s', A⟩) h2 hA
  | @fanoutFirst st id n source children winner _ _ hc hst hch hw he =>
    obtain ⟨B, hE, rfl⟩ := after_eq_ok_iff.mp he
    have h1 := Tracks.completed hc (WorkflowStage.isKind_fanout_iff.mpr ⟨_, _, hst⟩) children
    exact Tracks.picked (e := .fanoutCompleted id n children (some winner)) h1
      (childrenOk_spec hch).2 hw (onward hc) (enterStage_eq_ok_iff.mp hE) s
  | stageFailed hc hf he =>
    exact quiet rfl (h.failMove ((hi.live_of_running hc.running).failMove so he))
  | timeoutNotified => exact quiet rfl ⟨h.same rfl rfl fun c hm => hm, rfl⟩
  | timeoutReassigned hc hf hac he =>
    obtain ⟨B, hE, rfl⟩ := after_eq_ok_iff.mp he
    obtain ⟨h', hB⟩ := h.entry (hi.live_of_running hc.running).index_lt.le
      (enterStage_eq_ok_iff.mp hE)
    exact quiet rfl ⟨h', hB⟩
  | timeoutCancelled | cancelledPending | cancelledRunning =>
    exact quiet rfl ⟨h.same rfl rfl fun c hm => hm, rfl⟩
  | mergeFailed hc hst hh he =>
    have hl := hi.live_of_running hc.running
    exact quiet rfl (h.mergeBack so hl
      (hl.mergeBack so ⟨_, hc.stage, WorkflowStage.isKind_merge_iff.mpr hst⟩ he).2.2)
  | mergeCompleted => exact quiet rfl ⟨h.same rfl rfl fun c hm => hm, rfl⟩

theorem tracks_of_run {history : List PipelineTransition}
    (hr : (pipeline taskId w).Run history s) :
    Tracks (FanoutRun.last history) s s.stageIndex := by
  induction hr with
  | start hs =>
    rw [hs]
    exact ⟨by rintro c ⟨⟩, by rintro c ⟨⟩, by rintro c ⟨⟩, fun hne => absurd rfl hne,
      List.nodup_nil, fun hne => absurd rfl hne⟩
  | snoc hr hs ih =>
    have hi := invariant_of_reachable hr.reachable
    exact (step_eq_ok_iff.mp hs).tracks hi.sound hi.inv ih

/-- An approval that picks is asked with the live children of its own fanout. -/
theorem offered_choices {history : List PipelineTransition}
    (hr : (pipeline taskId w).Run history s) {t : PipelineTransition} (ht : t ∈ history.head?)
    {id : String} {n : Nat} {bound : Bool} {head : Option String} {choices : List String}
    (ha : .requestApproval id n bound head choices ∈ t.output) {i f : Nat} {st sf : WorkflowStage}
    (hs : w.workflow.stages[i]? = some st) (hid : st.id = id)
    (hf : w.workflow.pickFanoutIndexForApproval i = some f)
    (hsf : w.workflow.stages[f]? = some sf) :
    (FanoutRun.last history).stageId = some sf.id ∧ choices ≠ [] ∧
      choices = s.fanoutChildTaskIds := by
  have htrack := tracks_of_run hr
  cases hr with
  | start => cases ht
  | snoc hr hstep =>
    obtain rfl := Option.some.inj ht
    have hi := invariant_of_reachable hr.reachable
    have hi' := hi.step hstep
    have so := w.sound
    obtain ⟨hl, hmem⟩ := live_of_request hi hstep ha (by simp [PipelineAction.identity])
    obtain ⟨st', action, hst', hreq, hor⟩ := hl.exists_requestOf hi'.sound hmem
    obtain rfl : action = .requestApproval id n bound head choices := by
      rcases hor with h | h
      · cases h
      · unfold withReason at h
        split at h
        · cases h
        · exact h.symm
    rw [hi'.workflow] at hst'
    -- The request is for the approval stage the task is at.
    have hid' := identity_of_requestOf hreq
    obtain ⟨rfl, -⟩ := Prod.mk.inj (Option.some.inj hid')
    obtain rfl := so.ids _ _ _ _ hs hst' hid
    obtain rfl := Option.some.inj (hs.symm.trans hst')
    obtain ⟨hpick, hnext⟩ := so.pickFanoutIndex_eq_some_iff.mp hf
    have hkind : ∃ approver count, st.stage = .approval approver count bound := by
      obtain ⟨sa, hsa, hka⟩ := so.pickApproval f hpick
      rw [← hnext, hs, Option.some.injEq] at hsa
      obtain ⟨approver, count, bound', hst⟩ := WorkflowStage.isKind_approval_iff.mp (hsa ▸ hka)
      simp only [requestOf, hst, Option.some.injEq, PipelineAction.requestApproval.injEq] at hreq
      exact ⟨approver, count, by rw [hst, hreq.2.2.1]⟩
    obtain ⟨approver, count, hst⟩ := hkind
    simp only [requestOf, hst, Option.some.injEq, PipelineAction.requestApproval.injEq] at hreq
    obtain ⟨-, -, -, -, hchoices⟩ := hreq
    have hpicks : s.workflow.picks s.stageIndex = true := by
      rw [hi'.workflow]
      exact so.picks_iff.mpr ⟨f, hpick, hnext⟩
    rw [if_pos hpicks] at hchoices
    have hne := hl.children_ne_nil hi'.sound hpicks
    obtain ⟨g, sg, hsg, hkg, hgid, hpast⟩ := htrack.owner hne
    rw [hi'.workflow, hnext] at hpast
    rw [hi'.workflow] at hsg
    obtain rfl := hpast.eq_of_pick so ⟨sg, hsg, hkg⟩ hpick
    obtain rfl := Option.some.inj (hsg.symm.trans hsf)
    exact ⟨hgid, hchoices ▸ hne, hchoices.symm⟩

/-- Every pick is offered live children of its own fanout, a winner is one of them and is never
cancelled, no sibling is cancelled twice, and a last pick is decided before the task is done. -/
theorem fanout_picks {history : List PipelineTransition}
    (hr : (pipeline taskId w).Run history s) :
    let run := FanoutRun.last history
    (∀ t ∈ history.head?, ∀ id n bound head choices,
      .requestApproval id n bound head choices ∈ t.output →
      ∀ i f st sf, w.workflow.stages[i]? = some st → st.id = id →
        w.workflow.pickFanoutIndexForApproval i = some f → w.workflow.stages[f]? = some sf →
        run.stageId = some sf.id ∧ choices ≠ [] ∧ choices.Nodup ∧
          ∀ c ∈ choices, c ∈ run.children ∧ c ∉ run.cancelled) ∧
    (∀ c ∈ s.selectedFanoutChild, c ∈ s.fanoutChildTaskIds) ∧
    (∀ c ∈ run.winners, c ∉ run.cancelled) ∧ run.cancelled.Nodup ∧
    (s.status = .done → ∀ f, w.workflow.At f (·.isPickFanout) →
      (∀ g, f < g → ¬ w.workflow.At g (·.isKind .fanout)) → s.selectedFanoutChild.isSome = true) := by
  intro run
  have hi := invariant_of_reachable hr.reachable
  have htrack := tracks_of_run hr
  refine ⟨fun t ht id n bound head choices ha i f st sf hs hid hf hsf => ?_,
    hi.inv.records.selected, htrack.winners, htrack.nodup, fun hdone f hf hlast => ?_⟩
  · obtain ⟨hown, hne, rfl⟩ := offered_choices hr ht ha hs hid hf hsf
    exact ⟨hown, hne, hi.inv.records.children, htrack.children⟩
  · obtain ⟨c, -, hsel⟩ := (hi.inv.finished_of_done hdone).exists_winner hi.sound
      (by rw [hi.workflow]; exact hf) (by rw [hi.workflow]; exact hlast)
    rw [hsel]
    rfl

/-- Two variants of a plan, one of which a reviewer chooses. -/
def variants : ValidatedWorkflow :=
  ⟨{ Workflow.builtinCode with
      stages := [.new "draft" (.work "dev" "" .plan), .new "spread" (.fanout .workOutput .pick),
        .new "choose" (.approval (.role "reviewer") 1 false)] },
    ["dev", "reviewer"], by decide +kernel⟩

/-- The reviewer chooses one of two variants; the other one is cancelled. -/
theorem fanout_picks_variants :
    let s := scripted variants [.start, .workCompleted "draft" 1 (.plan ["p"]),
      .fanoutCompleted "spread" 1 ["a", "b"] none, .approvalGranted "choose" 1 "ann" none (some "a")]
    s.status = .done ∧ s.selectedFanoutChild.isSome = true ∧
      (step (scripted variants [.start, .workCompleted "draft" 1 (.plan ["p"]),
        .fanoutCompleted "spread" 1 ["a", "b"] none])
        (.approvalGranted "choose" 1 "ann" none (some "a"))).toOption.map (·.2) =
          some [.cancelFanoutSiblings "a" ["b"], .taskDone none] := by
  intro s
  have hdone : s.status = .done := by decide +kernel
  obtain ⟨history, hr, -⟩ := run_scripted variants [.start,
    .workCompleted "draft" 1 (.plan ["p"]), .fanoutCompleted "spread" 1 ["a", "b"] none,
    .approvalGranted "choose" 1 "ann" none (some "a")]
  refine ⟨hdone, (fanout_picks hr).2.2.2.2 hdone 1 ?_ fun g hg hf => ?_, by decide +kernel⟩
  · exact Workflow.any_getElem?_iff.mp (by decide +kernel)
  · have hlt : g < 3 := hf.lt
    obtain rfl : g = 2 := by omega
    exact absurd (Workflow.any_getElem?_iff.mpr hf) (by decide +kernel)

end Agend.Pipeline
