import Agend.Pipeline.Witness

/-! What the static rules say about an accepted workflow. -/
namespace Agend.Pipeline

namespace WorkflowStage

variable {st : WorkflowStage}

theorem isKind_iff {kind : StageKind} : st.isKind kind = true ↔ st.stage.kind = kind := by
  simp [isKind]

theorem isKind_work_iff :
    st.isKind .work = true ↔ ∃ role text output, st.stage = .work role text output := by
  rw [isKind_iff]
  cases st.stage <;> simp

theorem isKind_command_iff : st.isKind .command = true ↔ ∃ c, st.stage = .command c := by
  rw [isKind_iff]
  cases st.stage <;> simp

theorem isKind_approval_iff :
    st.isKind .approval = true ↔ ∃ by_ count bindHead, st.stage = .approval by_ count bindHead := by
  rw [isKind_iff]
  cases st.stage <;> simp

theorem isKind_submit_iff : st.isKind .submit = true ↔ ∃ forge, st.stage = .submit forge := by
  rw [isKind_iff]
  cases st.stage <;> simp

theorem isKind_merge_iff : st.isKind .merge = true ↔ st.stage = .merge :=
  isKind_iff.trans Stage.kind_eq_merge_iff

theorem isKind_fanout_iff :
    st.isKind .fanout = true ↔ ∃ source join, st.stage = .fanout source join := by
  rw [isKind_iff]
  cases st.stage <;> simp

theorem isBranchWork_iff :
    st.isBranchWork = true ↔ ∃ role text, st.stage = .work role text .branch := by
  cases h : st.stage with
  | work role text output => cases output <;> simp [isBranchWork, h]
  | _ => simp [isBranchWork, h]

theorem isBoundApproval_iff :
    st.isBoundApproval = true ↔ ∃ by_ count, st.stage = .approval by_ count true := by
  cases h : st.stage <;> simp [isBoundApproval, h]

theorem isPickFanout_iff :
    st.isPickFanout = true ↔ ∃ source, st.stage = .fanout source .pick := by
  cases h : st.stage with
  | fanout source join => cases join <;> simp [isPickFanout, h]
  | _ => simp [isPickFanout, h]

theorem isKind_work_of_isBranchWork (h : st.isBranchWork = true) : st.isKind .work = true := by
  obtain ⟨role, text, hs⟩ := isBranchWork_iff.mp h
  exact isKind_work_iff.mpr ⟨role, text, _, hs⟩

theorem isKind_fanout_of_isPickFanout (h : st.isPickFanout = true) :
    st.isKind .fanout = true := by
  obtain ⟨source, hs⟩ := isPickFanout_iff.mp h
  exact isKind_fanout_iff.mpr ⟨source, _, hs⟩

theorem isKind_approval_of_isBoundApproval (h : st.isBoundApproval = true) :
    st.isKind .approval = true := by
  obtain ⟨by_, count, hs⟩ := isBoundApproval_iff.mp h
  exact isKind_approval_iff.mpr ⟨by_, count, _, hs⟩

theorem isHeadBound_iff :
    st.isHeadBound = true ↔ st.isKind .command = true ∨ st.isBoundApproval = true := by
  simp [isHeadBound]

theorem needsHead_iff :
    st.needsHead = true ↔ st.isKind .merge = true ∨ st.isHeadBound = true := by
  simp [needsHead]

theorem needsHead_of_isHeadBound (h : st.isHeadBound = true) : st.needsHead = true :=
  needsHead_iff.mpr (Or.inr h)

theorem isKind_unique {k k' : StageKind} (h : st.isKind k = true) (h' : st.isKind k' = true) :
    k = k' := (isKind_iff.mp h).symm.trans (isKind_iff.mp h')

theorem not_isKind_work_of_needsHead (h : st.needsHead = true) : st.isKind .work = false := by
  rw [Bool.eq_false_iff]
  intro hw
  rcases needsHead_iff.mp h with hm | hb
  · cases isKind_unique hw hm
  · rcases isHeadBound_iff.mp hb with hc | ha
    · cases isKind_unique hw hc
    · cases isKind_unique hw (isKind_approval_of_isBoundApproval ha)

end WorkflowStage

/-- The stage at `i` exists and satisfies `p`. -/
def Workflow.At (w : Workflow) (i : Nat) (p : WorkflowStage → Bool) : Prop :=
  ∃ st, w.stages[i]? = some st ∧ p st = true

theorem Workflow.At.lt {w : Workflow} {i : Nat} {p : WorkflowStage → Bool} (h : w.At i p) :
    i < w.stages.length := by
  obtain ⟨st, hs, -⟩ := h
  exact (List.getElem?_eq_some_iff.mp hs).1

theorem Workflow.at_iff {w : Workflow} {i : Nat} {p : WorkflowStage → Bool} {st : WorkflowStage}
    (hs : w.stages[i]? = some st) : w.At i p ↔ p st = true := by
  simp [Workflow.At, hs]

theorem Workflow.any_getElem?_iff {w : Workflow} {i : Nat} {p : WorkflowStage → Bool} :
    w.stages[i]?.any p = true ↔ w.At i p := by
  simp [Workflow.At, Option.any_eq_true]

theorem Workflow.any_take_iff {w : Workflow} {n : Nat} {p : WorkflowStage → Bool} :
    (w.stages.take n).any p = true ↔ ∃ j < n, w.At j p := by
  rw [List.any_eq_true]
  constructor
  · rintro ⟨st, hst, hp⟩
    obtain ⟨j, hj⟩ := List.getElem?_of_mem hst
    rw [List.getElem?_take] at hj
    split_ifs at hj with hlt
    exact ⟨j, hlt, st, hj, hp⟩
  · rintro ⟨j, hj, st, hst, hp⟩
    exact ⟨st, List.mem_of_getElem? (by rw [List.getElem?_take, if_pos hj]; exact hst), hp⟩

theorem Workflow.any_drop_iff {w : Workflow} {n : Nat} {p : WorkflowStage → Bool} :
    (w.stages.drop n).any p = true ↔ ∃ j, n ≤ j ∧ w.At j p := by
  rw [List.any_eq_true]
  constructor
  · rintro ⟨st, hst, hp⟩
    obtain ⟨j, hj⟩ := List.getElem?_of_mem hst
    rw [List.getElem?_drop] at hj
    exact ⟨n + j, by omega, st, hj, hp⟩
  · rintro ⟨j, hj, st, hst, hp⟩
    refine ⟨st, List.mem_of_getElem? (i := j - n) ?_, hp⟩
    rw [List.getElem?_drop, show n + (j - n) = j by omega]
    exact hst

theorem Workflow.any_iff {w : Workflow} {p : WorkflowStage → Bool} :
    w.stages.any p = true ↔ ∃ j, w.At j p := by
  simpa using w.any_drop_iff (n := 0) (p := p)

theorem lastIndexBefore_succ (stages : List WorkflowStage) (n : Nat) (p : WorkflowStage → Bool) :
    lastIndexBefore stages (n + 1) p =
      if stages[n]?.any p then some n else lastIndexBefore stages n p := by
  simp only [lastIndexBefore, List.range_succ, List.reverse_append, List.reverse_singleton,
    List.singleton_append, List.find?_cons]
  split <;> simp_all

theorem lastIndexBefore_eq_some_iff {w : Workflow} {n i : Nat} {p : WorkflowStage → Bool} :
    lastIndexBefore w.stages n p = some i ↔
      i < n ∧ w.At i p ∧ ∀ j, i < j → j < n → ¬ w.At j p := by
  induction n with
  | zero => simp [lastIndexBefore]
  | succ n ih =>
    rw [lastIndexBefore_succ]
    split_ifs with hn
    · rw [Workflow.any_getElem?_iff] at hn
      constructor
      · rintro ⟨⟩
        exact ⟨by omega, hn, fun j h1 h2 => by omega⟩
      · rintro ⟨hi, -, hlast⟩
        rcases Nat.lt_succ_iff_lt_or_eq.mp hi with hlt | heq
        · exact absurd hn (hlast n hlt (by omega))
        · rw [heq]
    · rw [Workflow.any_getElem?_iff] at hn
      rw [ih]
      constructor
      · rintro ⟨hi, ha, hlast⟩
        refine ⟨by omega, ha, fun j h1 h2 => ?_⟩
        rcases Nat.lt_succ_iff_lt_or_eq.mp h2 with hlt | rfl
        · exact hlast j h1 hlt
        · exact hn
      · rintro ⟨hi, ha, hlast⟩
        have : i ≠ n := fun h => hn (h ▸ ha)
        exact ⟨by omega, ha, fun j h1 h2 => hlast j h1 (by omega)⟩

theorem lastIndexBefore_eq_none_iff {w : Workflow} {n : Nat} {p : WorkflowStage → Bool} :
    lastIndexBefore w.stages n p = none ↔ ∀ j < n, ¬ w.At j p := by
  simp only [lastIndexBefore, List.find?_eq_none, List.mem_reverse, List.mem_range,
    Workflow.any_getElem?_iff]

theorem Workflow.overStages_eq_nil_iff {w : Workflow}
    {f : Nat → WorkflowStage → List WorkflowError} :
    w.overStages f = [] ↔ ∀ i st, w.stages[i]? = some st → f i st = [] := by
  simp only [Workflow.overStages, List.flatMap_eq_nil_iff]
  constructor
  · intro h i st hs
    exact h (st, i) (List.mk_mem_zipIdx_iff_getElem?.mpr hs)
  · rintro h ⟨st, i⟩ hm
    exact h i st (List.mk_mem_zipIdx_iff_getElem?.mp hm)

/-- The rules `validate` checks on the list of stages. -/
structure Workflow.Shape (w : Workflow) : Prop where
  ids : ∀ (i j : Nat) (si sj : WorkflowStage), w.stages[i]? = some si → w.stages[j]? = some sj → si.id = sj.id → i = j
  failure : ∀ (i : Nat) (st : WorkflowStage) (target : String), w.stages[i]? = some st → st.onFail = some target →
    ∃ j < i, ∃ sj, w.stages[j]? = some sj ∧ sj.id = target ∧ sj.isKind .work = true
  count : ∀ (i : Nat) (st : WorkflowStage) (b : Approver) (n : Nat) (h : Bool),
    w.stages[i]? = some st → st.stage = .approval b n h → n ≠ 0
  forge : ∀ (i : Nat) (st : WorkflowStage) (f : String), w.stages[i]? = some st → st.stage = .submit f → f = w.forgeKind
  command : ∀ (i : Nat) (st : WorkflowStage) (c : String), w.stages[i]? = some st → st.stage = .command c →
    ∃ used, commandPlaceholders c = .ok used ∧
      ∀ p ∈ used, ∃ j < i, w.At j fun s =>
        if p = .pr then s.isKind .submit else s.isBranchWork
  mergeLast : ∀ i, w.At i (·.isKind .merge) → i + 1 = w.stages.length
  mergeCommand : ∀ i, w.At i (·.isKind .merge) → ∃ j < i, w.At j (·.isKind .command)
  mergeReviewed : ∀ i, w.At i (·.isKind .merge) →
    w.allowUnreviewed = true ∨ ∃ j < i, w.At j (·.isBoundApproval)
  pickApproval : ∀ i, w.At i (·.isPickFanout) → w.At (i + 1) (·.isKind .approval)
  earlierWork : ∀ i, w.At i (·.isKind .command) ∨ w.At i (·.isKind .approval) →
    ∃ j < i, w.At j (·.isKind .work)
  earlierBranch : ∀ i, w.At i (·.needsHead) → ∃ j < i, w.At j (·.isBranchWork)
  workBefore : ∀ i j, w.At i (·.needsHead) → w.At j (·.isKind .work) → j < i

private theorem stageErrors_parts {w : Workflow} {roles : List String} {i : Nat}
    {st : WorkflowStage} (h : w.stageErrors roles i st = []) :
    (w.stages.take i).any (fun s => s.id = st.id) = false ∧ w.failureTargetErrors i st = [] ∧
      w.stageKindErrors roles i st = [] := by
  simp only [Workflow.stageErrors, List.append_eq_nil_iff] at h
  obtain ⟨⟨⟨hid, -⟩, hf⟩, hk⟩ := h
  exact ⟨by simpa using hid, hf, hk⟩

private theorem failureTarget_of_errors {w : Workflow} {i : Nat} {st : WorkflowStage}
    {target : String} (h : w.failureTargetErrors i st = []) (ht : st.onFail = some target) :
    ∃ j < i, ∃ sj, w.stages[j]? = some sj ∧ sj.id = target ∧ sj.isKind .work = true := by
  simp only [Workflow.failureTargetErrors, ht] at h
  cases hp : w.stagePosition target with
  | none => simp [hp] at h
  | some j =>
    simp only [hp, ite_eq_left_iff, reduceCtorEq, imp_false,
      Bool.and_eq_true, decide_eq_true_eq, Workflow.any_getElem?_iff] at h
    obtain ⟨hj, sj, hsj, hw⟩ := of_not_not h
    obtain ⟨hlt, hid, -⟩ := List.findIdx?_eq_some_iff_getElem.mp hp
    rw [List.getElem?_eq_getElem hlt, Option.some.injEq] at hsj
    exact ⟨j, hj, sj, by rw [List.getElem?_eq_getElem hlt, hsj], by simpa [hsj] using hid, hw⟩

private theorem ids_of_errors {w : Workflow}
    (h : ∀ i st, w.stages[i]? = some st → (w.stages.take i).any (fun s => s.id = st.id) = false)
    {i j : Nat} {si sj : WorkflowStage} (hi : w.stages[i]? = some si)
    (hj : w.stages[j]? = some sj) (hid : si.id = sj.id) : i = j := by
  rcases Nat.lt_trichotomy i j with hlt | heq | hlt
  · have := h j sj hj
    rw [Bool.eq_false_iff, Ne, Workflow.any_take_iff] at this
    exact absurd ⟨i, hlt, si, hi, by simpa using hid⟩ this
  · exact heq
  · have := h i si hi
    rw [Bool.eq_false_iff, Ne, Workflow.any_take_iff] at this
    exact absurd ⟨j, hlt, sj, hj, by simpa using hid.symm⟩ this

private theorem command_of_errors {w : Workflow} {roles : List String} {i : Nat}
    {st : WorkflowStage} {c : String} (h : w.stageKindErrors roles i st = [])
    (hc : st.stage = .command c) :
    ∃ used, commandPlaceholders c = .ok used ∧
      ∀ p ∈ used, ∃ j < i, w.At j fun s =>
        if p = .pr then s.isKind .submit else s.isBranchWork := by
  simp only [Workflow.stageKindErrors, hc] at h
  split_ifs at h
  cases hu : commandPlaceholders c with
  | error p => simp [hu] at h
  | ok used =>
    simp only [hu, List.map_eq_nil_iff, List.filter_eq_nil_iff, Bool.not_eq_true,
      Bool.not_eq_false'] at h
    refine ⟨used, rfl, fun p hp => ?_⟩
    have := h p hp
    cases p <;>
      simpa only [Workflow.placeholderHasSource, Workflow.any_take_iff, if_true, reduceCtorEq,
        if_false] using this

/-- The head-bound rules place every work stage before every stage that needs a head. -/
private theorem workBefore_of_errors {w : Workflow} (hb : w.headBoundErrors = [])
    (ha : w.workAfterErrors = [])
    (hl : ∀ i, w.At i (·.isKind .merge) → i + 1 = w.stages.length)
    (he : ∀ i, w.At i (·.needsHead) → ∃ j < i, w.At j (·.isBranchWork)) {i j : Nat}
    (hi : w.At i (·.needsHead)) (hj : w.At j (·.isKind .work)) : j < i := by
  obtain ⟨k, hki, hk⟩ := he i hi
  obtain ⟨last, hlast⟩ : ∃ last, w.lastBranchWork = some last := by
    cases hn : w.lastBranchWork with
    | none => exact absurd hk (lastIndexBefore_eq_none_iff.mp hn k hk.lt)
    | some last => exact ⟨last, rfl⟩
  obtain ⟨-, hbl, -⟩ := lastIndexBefore_eq_some_iff.mp hlast
  have hne : i ≠ last := by
    rintro rfl
    obtain ⟨st, hs, hn⟩ := hi
    rw [Workflow.at_iff hs] at hbl
    have h1 := WorkflowStage.isKind_work_of_isBranchWork hbl
    rw [WorkflowStage.not_isKind_work_of_needsHead hn] at h1
    cases h1
  -- Commands and bound approvals are after the last branch work; the merge is last anyway.
  have hlt : last < i := by
    by_contra hcon
    have hil : i < last := by omega
    obtain ⟨st, hs, hn⟩ := hi
    simp only [Workflow.headBoundErrors, hlast, List.map_eq_nil_iff, List.filter_eq_nil_iff] at hb
    have hst := hb st (List.mem_of_getElem? (i := i) (by rw [List.getElem?_take, if_pos hil]; exact hs))
    have hm : st.isKind .merge = true := by
      simp only [WorkflowStage.needsHead, Bool.or_eq_true] at hn
      exact hn.resolve_right hst
    have := hl i ⟨st, hs, hm⟩
    have := hbl.lt
    omega
  by_contra hcon
  have hjl : last + 1 ≤ j := by omega
  have hany : w.stages.any (·.needsHead) = true := Workflow.any_iff.mpr ⟨i, hi⟩
  simp only [Workflow.workAfterErrors, hany, if_true, hlast, List.map_eq_nil_iff,
    List.filter_eq_nil_iff] at ha
  obtain ⟨st, hs, hw⟩ := hj
  refine ha st (List.mem_of_getElem? (i := j - (last + 1)) ?_) hw
  rw [List.getElem?_drop, show last + 1 + (j - (last + 1)) = j by omega]
  exact hs

theorem Workflow.shape_of_staticErrors {w : Workflow} {roles : List String}
    (h : w.staticErrors roles = []) : w.Shape := by
  simp only [Workflow.staticErrors, List.append_eq_nil_iff, Workflow.overStages_eq_nil_iff] at h
  obtain ⟨⟨⟨⟨⟨⟨⟨hst, -⟩, -⟩, hm⟩, hf⟩, hb⟩, he⟩, ha⟩ := h
  have merge : ∀ i, w.At i (·.isKind .merge) → ((w.stages.take i).any (·.isKind .command) = true) ∧
      i + 1 = w.stages.length ∧
      (w.allowUnreviewed = true ∨ (w.stages.take i).any (·.isBoundApproval) = true) := by
    rintro i ⟨st, hs, hk⟩
    have := hm i st hs
    simp only [Workflow.mergeErrors, hk, if_true, List.append_eq_nil_iff] at this
    obtain ⟨⟨h1, h2⟩, h3⟩ := this
    refine ⟨by simpa using h1, by simpa using h2, ?_⟩
    by_contra hcon
    push Not at hcon
    simp [hcon.1, hcon.2] at h3
  have branch : ∀ i, w.At i (·.needsHead) → ∃ j < i, w.At j (·.isBranchWork) := by
    rintro i ⟨st, hs, hn⟩
    have := (List.append_eq_nil_iff.mp (he i st hs)).2
    simp only [hn, Bool.true_and, ite_eq_right_iff, reduceCtorEq, imp_false, Bool.not_eq_true',
      Bool.not_eq_false] at this
    exact Workflow.any_take_iff.mp this
  refine ⟨fun i j si sj hi hj => ids_of_errors (fun i st hs => (stageErrors_parts (hst i st hs)).1)
      hi hj, ?_, ?_, ?_, ?_, fun i hi => (merge i hi).2.1, ?_, ?_, ?_, ?_, branch,
      fun i j => workBefore_of_errors hb ha (fun i hi => (merge i hi).2.1) branch⟩
  · exact fun i st target hs ht => failureTarget_of_errors (stageErrors_parts (hst i st hs)).2.1 ht
  · intro i st b n hd hs hk hz
    have := (stageErrors_parts (hst i st hs)).2.2
    simp [Workflow.stageKindErrors, hk, hz] at this
  · intro i st f hs hk
    have := (stageErrors_parts (hst i st hs)).2.2
    simp only [Workflow.stageKindErrors, hk, ite_eq_right_iff, reduceCtorEq, imp_false,
      Bool.or_eq_true, not_or, decide_eq_true_eq, Decidable.not_not] at this
    exact this.2
  · exact fun i st c hs hk => command_of_errors (stageErrors_parts (hst i st hs)).2.2 hk
  · exact fun i hi => Workflow.any_take_iff.mp (merge i hi).1
  · exact fun i hi => (merge i hi).2.2.imp_right Workflow.any_take_iff.mp
  · rintro i ⟨st, hs, hp⟩
    have := hf i st hs
    obtain ⟨source, hk⟩ := WorkflowStage.isPickFanout_iff.mp hp
    simp only [Workflow.fanoutErrors, hk, List.append_eq_nil_iff] at this
    exact Workflow.any_getElem?_iff.mp (by simpa using this.2)
  · rintro i hi
    obtain ⟨st, hs, hk⟩ : w.At i fun s => s.isKind .command || s.isKind .approval := by
      rcases hi with ⟨st, hs, hk⟩ | ⟨st, hs, hk⟩ <;> exact ⟨st, hs, by simp [hk]⟩
    have := (List.append_eq_nil_iff.mp (he i st hs)).1
    simp only [hk, Bool.true_and, ite_eq_right_iff, reduceCtorEq, imp_false, Bool.not_eq_true',
      Bool.not_eq_false] at this
    exact Workflow.any_take_iff.mp this

namespace Workflow.Shape

variable {w : Workflow} (sh : w.Shape)
include sh

theorem stagePosition_eq {i : Nat} {st : WorkflowStage} (hs : w.stages[i]? = some st) :
    w.stagePosition st.id = some i := by
  obtain ⟨hi, he⟩ := List.getElem?_eq_some_iff.mp hs
  refine List.findIdx?_eq_some_iff_getElem.mpr ⟨hi, by simp [he], fun j hj => ?_⟩
  have hj' : j < w.stages.length := by omega
  intro hid
  have := sh.ids j i _ st (List.getElem?_eq_getElem hj') hs (by simpa using hid)
  omega

theorem find_eq {i : Nat} {st : WorkflowStage} (hs : w.stages[i]? = some st) :
    w.stages.find? (fun s => s.id = st.id) = some st := by
  cases hf : w.stages.find? (fun s => s.id = st.id) with
  | none =>
    have := List.find?_eq_none.mp hf st (List.mem_of_getElem? hs)
    simp at this
  | some st' =>
    have hid := List.find?_some hf
    obtain ⟨j, hj⟩ := List.getElem?_of_mem (List.mem_of_find?_eq_some hf)
    have := sh.ids j i st' st hj hs (by simpa using hid)
    rw [this, hs] at hj
    rw [hj]

theorem firstApprovalAfter_eq {f : Nat} (hf : w.At f (·.isPickFanout)) :
    w.firstApprovalAfter f = some (f + 1) := by
  obtain ⟨st, hs, hk⟩ := sh.pickApproval f hf
  obtain ⟨hlt, he⟩ := List.getElem?_eq_some_iff.mp hs
  have hd : w.stages.drop (f + 1) = st :: w.stages.drop (f + 2) := by
    rw [List.drop_eq_getElem_cons hlt, he]
  simp [Workflow.firstApprovalAfter, hd, List.findIdx?_cons, hk]

/-- The approval that picks is the one right after its pick fanout. -/
theorem pickFanoutIndex_eq_some_iff {a f : Nat} :
    w.pickFanoutIndexForApproval a = some f ↔ w.At f (·.isPickFanout) ∧ a = f + 1 := by
  have found : ∀ g, (w.stages[g]?.any (·.isPickFanout) && w.firstApprovalAfter g = some a) = true ↔
      w.At g (·.isPickFanout) ∧ a = g + 1 := by
    intro g
    simp only [Bool.and_eq_true, Workflow.any_getElem?_iff, decide_eq_true_eq]
    refine and_congr_right fun hg => ?_
    rw [sh.firstApprovalAfter_eq hg, Option.some.injEq, eq_comm]
  unfold Workflow.pickFanoutIndexForApproval
  constructor
  · intro h
    split_ifs at h
    have hf := List.find?_some h
    exact (found f).mp hf
  · rintro ⟨hf, rfl⟩
    rw [if_pos (by have := hf.lt; omega)]
    cases hg : (List.range (f + 1)).reverse.find? fun i =>
        w.stages[i]?.any (·.isPickFanout) && w.firstApprovalAfter i = some (f + 1) with
    | none => exact absurd ((found f).mpr ⟨hf, rfl⟩) (List.find?_eq_none.mp hg f (by simp))
    | some g =>
      have hp := List.find?_some hg
      have := ((found g).mp hp).2
      exact congrArg some (by omega)

theorem picks_iff {a : Nat} :
    w.picks a = true ↔ ∃ f, w.At f (·.isPickFanout) ∧ a = f + 1 := by
  simp only [Workflow.picks, Option.isSome_iff_exists, sh.pickFanoutIndex_eq_some_iff]

end Workflow.Shape

end Agend.Pipeline
