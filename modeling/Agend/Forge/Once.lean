import Agend.Forge.Local

/-! A local merge happens once and loses nothing, over every run of the worker, its crashes and the
other actors between any two of its steps. -/
namespace Agend.Forge

open Library
open Library.History

/-- The second parent, which a merge takes from the branch. -/
def merges (commits : Commits) (i : Nat) : Option Nat := (commits.parents i)[1]?

/-- No merge of this head was moved to. -/
def Unmerged (s : World) (head : Nat) : Prop :=
  ∀ d ∈ s.moved, merges s.repo.commits d ≠ some head

/-- The head brings no merge commit of ours that was not moved to. -/
def Clean (s : World) (head : Nat) : Prop :=
  head < s.repo.commits.length ∧
    ∀ c ∈ s.made, s.repo.commits.Reaches c head → c ∈ s.moved

/-- A merge of the call may be made on `main`, which main was when it was read. -/
structure Ready (s : World) (c : Call) (main : Nat) : Prop where
  unmerged : Unmerged s c.expectedHead
  clean : Clean s c.expectedHead
  main : s.repo.commits.Reaches main s.repo.main

structure Made (s : World) (p : Planned) : Prop extends Ready s p.call p.main where
  lt : p.commit < s.repo.commits.length
  parents : s.repo.commits.parents p.commit = [p.main, p.call.expectedHead]

/-- What is known at each point of a call. -/
def At (s : World) : Phase → Prop
  | .idle | .verify _ | .history _ | .loadIntent _ | .intent _ _ | .onMain _ => True
  | .firstOnMain c => s.repo.commits.Reaches c.expectedHead s.repo.main
  | .head c => Unmerged s c.expectedHead
  | .readMain c => Unmerged s c.expectedHead ∧ Clean s c.expectedHead
  | .worktrees c main | .mergeTree c main _ | .loadTask c main _ _ | .commitTree c main _ _ _ =>
    Ready s c main
  | .loadProgress p | .advanceTask p => Made s p
  | .recheckMain p | .recheckHead p | .move p => Made s p ∧ p.commit ∈ s.store.intents

structure Sound (s : World) : Prop where
  founded : s.repo.commits.Founded
  main : s.repo.main < s.repo.commits.length
  branches : ∀ b ∈ s.repo.branches, b.2 < s.repo.commits.length
  made : ∀ c ∈ s.made, c < s.repo.commits.length
  moved : ∀ d ∈ s.moved, s.repo.commits.Reaches d s.repo.main ∧
    (merges s.repo.commits d).isSome = true
  shown : ∀ c ∈ s.made, s.repo.visible c = true → c ∈ s.moved
  unique : ∀ c ∈ s.moved, ∀ d ∈ s.moved,
    merges s.repo.commits c = merges s.repo.commits d → c = d
  phase : At s s.phase

/-- Commits are added and main moves forward; what the worker made is new. -/
structure Grows (s s' : World) : Prop where
  commits : ∃ K, s'.repo.commits = s.repo.commits ++ K
  main : s'.repo.commits.Reaches s.repo.main s'.repo.main
  moved : s'.moved = s.moved
  made : ∀ c ∈ s'.made, c ∈ s.made ∨ s.repo.commits.length ≤ c
  intents : ∀ i ∈ s.store.intents, i ∈ s'.store.intents

variable {task : String} {s s' : World} {c : Call} {p : Planned} {a : Answers} {e : Event}
  {o : Option Result} {i main head : Nat} {phase : Phase} {h : List (Transition World Event (Option Result))}
  {commits commits' : Commits} {K : Commits} {branch : String}

theorem visible_iff (hf : s.repo.commits.Founded) : s.repo.visible i = true ↔
    s.repo.commits.Reaches i s.repo.main ∨
      ∃ b ∈ s.repo.branches, s.repo.commits.Reaches i b.2 := by
  unfold Repo.visible
  rw [Bool.or_eq_true, isAncestor_iff hf, List.any_eq_true]
  refine or_congr Iff.rfl (exists_congr fun b => and_congr Iff.rfl ?_)
  exact isAncestor_iff hf

theorem merges_append (hi : i < commits.length) : merges (commits ++ K) i = merges commits i := by
  rw [merges, merges, parents_append hi]

/-- A merged head is an ancestor of the merge. -/
theorem reaches_of_merges (h : merges commits i = some head) : commits.Reaches head i :=
  reaches_parent (List.mem_of_getElem? h)

theorem Unmerged.grows (hu : Unmerged s head) (hs : Sound s) (hg : Grows s s') :
    Unmerged s' head := by
  obtain ⟨K, hK⟩ := hg.commits
  intro d hd
  rw [hg.moved] at hd
  have hlt : d < s.repo.commits.length :=
    Nat.lt_of_le_of_lt ((hs.moved d hd).1.le hs.founded) hs.main
  rw [hK, merges_append hlt]
  exact hu d hd

theorem Clean.grows (hc : Clean s head) (hg : Grows s s') (hf : s'.repo.commits.Founded) :
    Clean s' head := by
  obtain ⟨K, hK⟩ := hg.commits
  refine ⟨by rw [hK, List.length_append]; exact Nat.lt_add_right _ hc.1, fun c hm hr => ?_⟩
  rw [hg.moved]
  rcases hg.made c hm with hm | hnew
  · rw [hK] at hr hf
    exact hc.2 c hm (hr.of_append hf hc.1)
  · have hle := hr.le hf
    exact absurd (Nat.lt_of_le_of_lt (Nat.le_trans hnew hle) hc.1) (Nat.lt_irrefl _)

theorem Grows.reaches (hg : Grows s s') (hr : s.repo.commits.Reaches i main) :
    s'.repo.commits.Reaches i main := by
  obtain ⟨K, hK⟩ := hg.commits
  rw [hK]
  exact hr.append K

theorem Ready.grows (hr : Ready s c main) (hs : Sound s) (hg : Grows s s')
    (hf : s'.repo.commits.Founded) : Ready s' c main where
  unmerged := hr.unmerged.grows hs hg
  clean := hr.clean.grows hg hf
  main := (hg.reaches hr.main).trans hg.main

theorem Made.grows (hp : Made s p) (hs : Sound s) (hg : Grows s s')
    (hf : s'.repo.commits.Founded) : Made s' p where
  toReady := hp.toReady.grows hs hg hf
  lt := by
    obtain ⟨K, hK⟩ := hg.commits
    rw [hK, List.length_append]
    exact Nat.lt_add_right _ hp.lt
  parents := by
    obtain ⟨K, hK⟩ := hg.commits
    rw [hK, parents_append hp.lt]
    exact hp.parents

/-- What is known at a point of a call stays known. -/
theorem At.grows (ha : At s phase) (hs : Sound s) (hg : Grows s s')
    (hf : s'.repo.commits.Founded) : At s' phase := by
  cases phase with
  | idle | verify _ | history _ | loadIntent _ | intent _ _ | onMain _ => trivial
  | firstOnMain c => exact (hg.reaches ha).trans hg.main
  | head c => exact Unmerged.grows ha hs hg
  | readMain c => exact ⟨ha.1.grows hs hg, ha.2.grows hg hf⟩
  | worktrees c main | mergeTree c main _ | loadTask c main _ _ | commitTree c main _ _ _ =>
    exact Ready.grows ha hs hg hf
  | loadProgress p | advanceTask p => exact Made.grows ha hs hg hf
  | recheckMain p | recheckHead p | move p => exact ⟨ha.1.grows hs hg hf, hg.intents _ ha.2⟩

/-- A growth in which what references reach is what they reached, or is new and not ours. -/
theorem Sound.grows (hs : Sound s) (hg : Grows s s') (hphase : At s' s'.phase)
    (hf : s'.repo.commits.Founded) (hmain : s'.repo.main < s'.repo.commits.length)
    (hbranches : ∀ b ∈ s'.repo.branches, b.2 < s'.repo.commits.length)
    (hmade : ∀ c ∈ s'.made, c < s'.repo.commits.length)
    (hshown : ∀ c ∈ s'.made, s'.repo.visible c = true → c ∈ s.made ∧ s.repo.visible c = true) :
    Sound s' where
  founded := hf
  main := hmain
  branches := hbranches
  made := hmade
  moved d hd := by
    rw [hg.moved] at hd
    obtain ⟨hr, hm⟩ := hs.moved d hd
    have hlt := Nat.lt_of_le_of_lt (hr.le hs.founded) hs.main
    obtain ⟨K, hK⟩ := hg.commits
    refine ⟨(hg.reaches hr).trans hg.main, ?_⟩
    rw [hK, merges_append hlt]
    exact hm
  shown c hc hv := by
    obtain ⟨hc, hv⟩ := hshown c hc hv
    rw [hg.moved]
    exact hs.shown c hc hv
  unique c hc d hd := by
    rw [hg.moved] at hc hd
    obtain ⟨K, hK⟩ := hg.commits
    have hlt : ∀ d ∈ s.moved, d < s.repo.commits.length := fun d hd =>
      Nat.lt_of_le_of_lt ((hs.moved d hd).1.le hs.founded) hs.main
    rw [hK, merges_append (hlt c hc), merges_append (hlt d hd)]
    exact hs.unique c hc d hd
  phase := hphase

theorem grows_phase (s : World) (phase : Phase) : Grows s { s with phase } :=
  ⟨⟨[], (List.append_nil _).symm⟩, .refl, rfl, fun _ => Or.inl, fun _ => id⟩

theorem Grows.trans {s'' : World} (hg : Grows s s') (hg' : Grows s' s'') : Grows s s'' where
  commits := by
    obtain ⟨K, hK⟩ := hg.commits
    obtain ⟨K', hK'⟩ := hg'.commits
    exact ⟨K ++ K', by rw [hK', hK, List.append_assoc]⟩
  main := (hg'.reaches hg.main).trans hg'.main
  moved := hg'.moved.trans hg.moved
  made c hc := by
    obtain ⟨K, hK⟩ := hg.commits
    rcases hg'.made c hc with hc | hc
    · exact hg.made c hc
    · rw [hK, List.length_append] at hc
      exact Or.inr (Nat.le_trans (Nat.le_add_right _ _) hc)
  intents i hi := hg'.intents i (hg.intents i hi)

/-- Only the place in the call changes. -/
theorem Sound.at (hs : Sound s) (phase : Phase) (ha : At s phase) : Sound { s with phase } :=
  ⟨hs.founded, hs.main, hs.branches, hs.made, hs.moved, hs.shown, hs.unique,
    ha.grows hs (grows_phase s phase) hs.founded⟩

theorem Sound.idle (hs : Sound s) : Sound { s with phase := .idle } := hs.at .idle trivial

theorem Sound.visible_lt (hs : Sound s) (hv : s.repo.visible i = true) :
    i < s.repo.commits.length := by
  rcases (visible_iff hs.founded).mp hv with hr | ⟨b, hb, hr⟩
  · exact Nat.lt_of_le_of_lt (hr.le hs.founded) hs.main
  · exact Nat.lt_of_le_of_lt (hr.le hs.founded) (hs.branches b hb)

/-- What a visible commit reaches is visible. -/
theorem Sound.visible_of_reaches (hs : Sound s) (hr : s.repo.commits.Reaches i head)
    (hv : s.repo.visible head = true) : s.repo.visible i = true := by
  rw [visible_iff hs.founded] at hv ⊢
  rcases hv with hm | ⟨b, hb, hm⟩
  · exact Or.inl (hr.trans hm)
  · exact Or.inr ⟨b, hb, hr.trans hm⟩

theorem Sound.visible_main (hs : Sound s) : s.repo.visible s.repo.main = true :=
  (visible_iff hs.founded).mpr (Or.inl .refl)

theorem Sound.visible_branch (hs : Sound s) {b : String × Nat} (hb : b ∈ s.repo.branches) :
    s.repo.visible b.2 = true :=
  (visible_iff hs.founded).mpr (Or.inr ⟨b, hb, .refl⟩)

theorem mem_setBranch {r : Repo} {b : String × Nat} (hb : b ∈ (r.setBranch branch i).branches) :
    b.2 = i ∨ b ∈ r.branches := by
  rcases List.mem_cons.mp hb with rfl | hb
  · exact Or.inl rfl
  · exact Or.inr (List.mem_filter.mp hb).1

/-- References that are put on visible commits show nothing new. -/
theorem Sound.refs (hs : Sound s) {r : Repo} (hc : r.commits = s.repo.commits)
    (hm : s.repo.visible r.main = true) (hf : s.repo.commits.Reaches s.repo.main r.main)
    (hb : ∀ b ∈ r.branches, s.repo.visible b.2 = true) : Sound { s with repo := r } := by
  have hg : Grows s { s with repo := r } :=
    ⟨⟨[], hc.trans (List.append_nil _).symm⟩, by rw [hc]; exact hf, rfl, fun _ => Or.inl,
      fun _ => id⟩
  have hfounded : r.commits.Founded := hc ▸ hs.founded
  refine hs.grows hg (hs.phase.grows hs hg hfounded) hfounded ?_ (fun b hb' => ?_) ?_
    fun c hcm hv => ⟨hcm, ?_⟩
  · rw [hc]
    exact hs.visible_lt hm
  · rw [hc]
    exact hs.visible_lt (hb b hb')
  · rw [hc]
    exact hs.made
  · rcases (visible_iff (s := { s with repo := r }) hfounded).mp hv with hr | ⟨b, hb', hr⟩
    · rw [hc] at hr
      exact hs.visible_of_reaches hr hm
    · rw [hc] at hr
      exact hs.visible_of_reaches hr (hb b hb')

/-- Somebody's commit on visible ones shows itself, and it is not ours. -/
theorem Sound.commit (hs : Sound s) {parents : List Nat} {content : Content}
    (hp : ∀ q ∈ parents, s.repo.visible q = true) :
    Sound { s with repo := s.repo.commit branch parents content } := by
  let n : Node Content := ⟨parents, content⟩
  have hcommits : (s.repo.commit branch parents content).commits = s.repo.commits ++ [n] := rfl
  have hf : (s.repo.commits ++ [n]).Founded :=
    hs.founded.concat fun q hq => hs.visible_lt (hp q hq)
  have hg : Grows s { s with repo := s.repo.commit branch parents content } :=
    ⟨⟨[n], hcommits⟩, .refl, rfl, fun _ => Or.inl, fun _ => id⟩
  have hlen : (s.repo.commits ++ [n]).length = s.repo.commits.length + 1 := by simp
  refine hs.grows hg (hs.phase.grows hs hg hf) hf ?_ (fun b hb => ?_) (fun c hc => ?_)
    fun c hc hv => ⟨hc, ?_⟩
  · rw [hcommits, hlen]
    exact Nat.lt_succ_of_lt hs.main
  · rw [hcommits, hlen]
    rcases mem_setBranch hb with he | hb
    · rw [he]
      exact Nat.lt_succ_self _
    · exact Nat.lt_succ_of_lt (hs.branches b hb)
  · rw [hcommits, hlen]
    exact Nat.lt_succ_of_lt (hs.made c hc)
  · have hold : ∀ {j}, j < s.repo.commits.length → s.repo.visible j = true →
        (s.repo.commits ++ [n]).Reaches c j → s.repo.visible c = true :=
      fun hj hvj hr => hs.visible_of_reaches (hr.of_append hf hj) hvj
    rcases (visible_iff (s := { s with repo := s.repo.commit branch parents content }) hf).mp hv
      with hr | ⟨b, hb, hr⟩
    · exact hold hs.main hs.visible_main hr
    · rcases mem_setBranch hb with he | hb
      · have hr : (s.repo.commits ++ [n]).Reaches c s.repo.commits.length := by
          rw [← he]
          exact hr
        obtain ⟨q, hq, hr⟩ := hr.through (Nat.ne_of_lt (hs.made c hc))
        rw [parents_new] at hq
        exact hold (hs.visible_lt (hp q hq)) (hp q hq) hr
      · exact hold (hs.branches b hb) (hs.visible_branch hb) hr

/-- A merge commit that is made is there, and no reference reaches it. -/
theorem Sound.commitTree (hs : Sound s) (hr : Ready s c main) (content : Content) :
    let made := s.commitTree [main, c.expectedHead] content
    Sound { made.1 with phase := .idle } ∧ Grows s made.1 ∧
      made.2 < made.1.repo.commits.length ∧
      made.1.repo.commits.parents made.2 = [main, c.expectedHead] := by
  intro made
  cases hfind : s.repo.commits.findIdx? fun n =>
      n.parents = [main, c.expectedHead] && n.content = content with
  | some i =>
    have hmade : made = (s, i) := by
      simp only [made, World.commitTree, hfind]
    obtain ⟨hi, hn, -⟩ := List.findIdx?_eq_some_iff_getElem.mp hfind
    rw [hmade]
    refine ⟨hs.idle, ⟨⟨[], (List.append_nil _).symm⟩, .refl, rfl, fun _ => Or.inl, fun _ => id⟩,
      hi, ?_⟩
    rw [parents, List.getElem?_eq_getElem hi]
    exact of_decide_eq_true (Bool.and_eq_true_iff.mp hn).1
  | none =>
    let n : Node Content := ⟨[main, c.expectedHead], content⟩
    have hmade : made = ({ s with
        repo := { s.repo with commits := s.repo.commits ++ [n] }
        made := s.repo.commits.length :: s.made }, s.repo.commits.length) := by
      simp only [made, World.commitTree, hfind, n]
    rw [hmade]
    have hmain : main < s.repo.commits.length :=
      Nat.lt_of_le_of_lt (hr.main.le hs.founded) hs.main
    have hf : (s.repo.commits ++ [n]).Founded := by
      refine hs.founded.concat fun q hq => ?_
      rcases List.mem_cons.mp hq with rfl | hq
      · exact hmain
      · rw [List.mem_singleton.mp hq]
        exact hr.clean.1
    have hlen : (s.repo.commits ++ [n]).length = s.repo.commits.length + 1 := by simp
    let s1 : World := { s with
      repo := { s.repo with commits := s.repo.commits ++ [n] }
      made := s.repo.commits.length :: s.made }
    have hnew : ∀ c ∈ s1.made, c ∈ s.made ∨ s.repo.commits.length ≤ c := by
      intro c hc
      rcases List.mem_cons.mp hc with rfl | hc
      · exact Or.inr (Nat.le_refl _)
      · exact Or.inl hc
    have hg : Grows s s1 := ⟨⟨[n], rfl⟩, .refl, rfl, hnew, fun _ => id⟩
    have hg' : Grows s { s1 with phase := .idle } := ⟨⟨[n], rfl⟩, .refl, rfl, hnew, fun _ => id⟩
    refine ⟨hs.grows hg' trivial hf ?_ (fun b hb => ?_) (fun d hd => ?_) fun d hd hv => ?_, hg,
      ?_, parents_new n⟩
    · exact Nat.lt_of_lt_of_eq (Nat.lt_succ_of_lt hs.main) hlen.symm
    · exact Nat.lt_of_lt_of_eq (Nat.lt_succ_of_lt (hs.branches b hb)) hlen.symm
    · refine Nat.lt_of_lt_of_eq ?_ hlen.symm
      rcases List.mem_cons.mp hd with rfl | hd
      · exact Nat.lt_succ_self _
      · exact Nat.lt_succ_of_lt (hs.made d hd)
    · have hold : ∀ {j}, j < s.repo.commits.length → s.repo.visible j = true →
          (s.repo.commits ++ [n]).Reaches d j → d ∈ s.made ∧ s.repo.visible d = true := by
        intro j hj hvj hrj
        have hrj := hrj.of_append hf hj
        refine ⟨?_, hs.visible_of_reaches hrj hvj⟩
        rcases List.mem_cons.mp hd with rfl | hd
        · exact absurd (hrj.le hs.founded) (Nat.not_le_of_lt hj)
        · exact hd
      rcases (visible_iff (s := { s1 with phase := .idle }) hf).mp hv with hr | ⟨b, hb, hr⟩
      · exact hold hs.main hs.visible_main hr
      · exact hold (hs.branches b hb) (hs.visible_branch hb) hr
    · exact Nat.lt_of_lt_of_eq (Nat.lt_succ_self _) hlen.symm

/-- What the command that moves main can do. -/
theorem moveMain_cases (hs : Sound s) (hp : Made s p) {r : Repo}
    (hm : s.moveMain p = some r) :
    s.repo.commits.Reaches s.repo.main p.commit ∧ r = { s.repo with main := p.commit } ∨
      s.repo.commits.Reaches p.commit s.repo.main ∧ r = s.repo := by
  unfold World.moveMain at hm
  split at hm
  · split at hm
    · rename_i ha
      exact Or.inl ⟨(isAncestor_iff hs.founded).mp ha, (Option.some.inj hm).symm⟩
    · split at hm
      · rename_i ha
        exact Or.inr ⟨(isAncestor_iff hs.founded).mp ha, (Option.some.inj hm).symm⟩
      · cases hm
  · split at hm
    · rename_i he
      refine Or.inl ⟨reaches_parent ?_, (Option.some.inj hm).symm⟩
      rw [hp.parents, he]
      exact List.mem_cons_self
    · cases hm

theorem merges_made (hp : Made s p) :
    merges s.repo.commits p.commit = some p.call.expectedHead := by
  rw [merges, hp.parents]
  rfl

/-- Main is moved to a merge of a head that none was moved to before. -/
theorem Sound.move (hs : Sound s) (hp : Made s p) {r : Repo} (hm : s.moveMain p = some r) :
    Sound { s with repo := r, moved := p.commit :: s.moved, phase := .idle } := by
  have hmerge := merges_made hp
  have hunique : ∀ c ∈ p.commit :: s.moved, ∀ d ∈ p.commit :: s.moved,
      merges s.repo.commits c = merges s.repo.commits d → c = d := by
    intro c hc d hd he
    rcases List.mem_cons.mp hc with rfl | hc
    · rcases List.mem_cons.mp hd with rfl | hd
      · rfl
      · exact absurd (he.symm.trans hmerge) (hp.unmerged d hd)
    · rcases List.mem_cons.mp hd with rfl | hd
      · exact absurd (he.trans hmerge) (hp.unmerged c hc)
      · exact hs.unique c hc d hd he
  -- what the merge commit reaches was moved to, or is the merge commit
  have hreached : ∀ c ∈ s.made, s.repo.commits.Reaches c p.commit → c ∈ p.commit :: s.moved := by
    intro c hc hr
    by_cases he : c = p.commit
    · exact he ▸ List.mem_cons_self
    · obtain ⟨q, hq, hr⟩ := hr.through he
      rw [hp.parents] at hq
      refine List.mem_cons_of_mem _ ?_
      rcases List.mem_cons.mp hq with rfl | hq
      · exact hs.shown c hc (hs.visible_of_reaches (hr.trans hp.main) hs.visible_main)
      · rw [List.mem_singleton.mp hq] at hr
        exact hp.clean.2 c hc hr
  have hold : ∀ c ∈ s.made, s.repo.visible c = true → c ∈ p.commit :: s.moved :=
    fun c hc hv => List.mem_cons_of_mem _ (hs.shown c hc hv)
  rcases moveMain_cases hs hp hm with ⟨hff, rfl⟩ | ⟨hback, rfl⟩
  · refine ⟨hs.founded, hp.lt, hs.branches, hs.made, fun d hd => ?_, fun c hc hv => ?_, hunique,
      trivial⟩
    · rcases List.mem_cons.mp hd with rfl | hd
      · exact ⟨.refl, by rw [hmerge]; rfl⟩
      · exact ⟨(hs.moved d hd).1.trans hff, (hs.moved d hd).2⟩
    · rcases (visible_iff (s := { s with repo := { s.repo with main := p.commit } })
        hs.founded).mp hv with hr | ⟨b, hb, hr⟩
      · exact hreached c hc hr
      · exact hold c hc (hs.visible_of_reaches hr (hs.visible_branch hb))
  · refine ⟨hs.founded, hs.main, hs.branches, hs.made, fun d hd => ?_, hold, hunique, trivial⟩
    rcases List.mem_cons.mp hd with rfl | hd
    · exact ⟨hback, by rw [hmerge]; rfl⟩
    · exact hs.moved d hd

theorem isMergeOf_eq_true (h : isMergeOf task commits head i = true) :
    merges commits i = some head := by
  unfold isMergeOf at h
  split at h
  · rename_i n hn
    obtain ⟨h, -⟩ := Bool.and_eq_true_iff.mp h
    rw [merges, parents, hn]
    exact of_decide_eq_true (Bool.and_eq_true_iff.mp h).2
  · cases h

/-- A head that is not on main was merged by nobody. -/
theorem Sound.unmerged (hs : Sound s) (hn : ¬ s.repo.commits.Reaches head s.repo.main) :
    Unmerged s head :=
  fun d hd he => hn ((reaches_of_merges he).trans (hs.moved d hd).1)

/-- Main is among its first parents, so a head on main is found there. -/
theorem firstOnMain_isSome (hs : Sound s) (hr : s.repo.commits.Reaches head s.repo.main) :
    ((s.repo.commits.firstParents (s.repo.main + 1) s.repo.main).reverse.find?
      (s.repo.commits.isAncestor head)).isSome = true := by
  rw [List.find?_isSome]
  exact ⟨s.repo.main, List.mem_reverse.mpr List.mem_cons_self, (isAncestor_iff hs.founded).mpr hr⟩

/-- The call that a merge is reported of, and where the merge is. -/
def Reported (s s' : World) (i : Nat) : Prop :=
  s'.repo.commits.Reaches i s'.repo.main ∧
    ∀ c, s.phase.call = some c → s'.repo.commits.Reaches c.expectedHead i

/-- A step that only reads leaves the call somewhere, or ends it. -/
def Reads (s : World) (step : Option (World × Option Result)) : Prop :=
  ∀ s' o, step = some (s', o) → (∃ phase, s' = { s with phase } ∧ At s phase) ∧
    ∀ i, o = some (.ok (.merged i)) → Reported s s' i

theorem reads_goto (phase : Phase) (ha : At s phase) : Reads s (some (s.goto phase)) := by
  rintro s' o h
  obtain ⟨rfl, rfl⟩ := Prod.mk.inj (Option.some.inj h)
  exact ⟨⟨phase, rfl, ha⟩, fun _ => nofun⟩

theorem reads_done {result : Result}
    (hm : ∀ i, result = .ok (.merged i) → s.repo.commits.Reaches i s.repo.main ∧
      ∀ c, s.phase.call = some c → s.repo.commits.Reaches c.expectedHead i) :
    Reads s (some (s.done result)) := by
  rintro s' o h
  obtain ⟨rfl, rfl⟩ := Prod.mk.inj (Option.some.inj h)
  exact ⟨⟨.idle, rfl, trivial⟩, fun i hi => hm i (Option.some.inj hi)⟩

theorem reads_none : Reads s none := by
  intro s' o h
  cases h

/-- Looking for an earlier merge. -/
theorem reads_find (hs : Sound s) (hp : s.phase = phase) : Reads s (s.find task phase) := by
  have hcall : ∀ {c c' : Call}, s.phase.call = some c' → phase.call = some c → c' = c :=
    fun h h' => Option.some.inj (h.symm.trans (hp ▸ h'))
  have hon := hs.phase
  rw [hp] at hon
  cases phase with
  | verify c =>
    simp only [World.find]
    split
    · exact reads_goto _ trivial
    · rename_i hlen
      refine reads_goto _ (hs.unmerged fun hr => hlen ?_)
      exact Nat.lt_of_le_of_lt (hr.le hs.founded) hs.main
  | history c =>
    simp only [World.find]
    split
    · rename_i i hfind
      refine reads_done fun j hj => ?_
      obtain rfl := MergeResult.merged.inj (Except.ok.inj hj)
      have hmem := List.mem_of_mem_take (List.mem_of_find?_eq_some hfind)
      refine ⟨reaches_of_mem_firstParents hmem, fun c' hc' => ?_⟩
      rw [hcall hc' rfl]
      exact reaches_of_merges (isMergeOf_eq_true (List.find?_some hfind))
    · exact reads_goto _ trivial
  | loadIntent c =>
    simp only [World.find]
    split
    · exact reads_goto _ trivial
    · exact reads_goto _ trivial
  | intent c i =>
    simp only [World.find]
    split
    · rename_i hfound
      obtain ⟨hanc, hmerge⟩ := Bool.and_eq_true_iff.mp hfound
      refine reads_done fun j hj => ?_
      obtain rfl := MergeResult.merged.inj (Except.ok.inj hj)
      refine ⟨(isAncestor_iff hs.founded).mp hanc, fun c' hc' => ?_⟩
      rw [hcall hc' rfl]
      exact reaches_of_merges (isMergeOf_eq_true hmerge)
    · exact reads_goto _ trivial
  | onMain c =>
    simp only [World.find]
    split
    · rename_i hanc
      exact reads_goto _ ((isAncestor_iff hs.founded).mp hanc)
    · rename_i hno
      exact reads_goto _ (hs.unmerged fun hr => hno ((isAncestor_iff hs.founded).mpr hr))
  | firstOnMain c =>
    simp only [World.find]
    split
    · rename_i i hfind
      refine reads_done fun j hj => ?_
      obtain rfl := MergeResult.merged.inj (Except.ok.inj hj)
      have hmem := List.mem_reverse.mp (List.mem_of_find?_eq_some hfind)
      refine ⟨reaches_of_mem_firstParents hmem, fun c' hc' => ?_⟩
      rw [hcall hc' rfl]
      exact (isAncestor_iff hs.founded).mp (List.find?_some hfind)
    · rename_i hnone
      have hsome := firstOnMain_isSome hs hon
      rw [hnone] at hsome
      cases hsome
  | idle | head _ | readMain _ | worktrees _ _ | mergeTree _ _ _ | loadTask _ _ _ _
  | commitTree _ _ _ _ _ | loadProgress _ | advanceTask _ | recheckMain _ | recheckHead _
  | move _ => exact reads_none

theorem mem_of_head {r : Repo} (hh : r.head branch = some i) : (branch, i) ∈ r.branches := by
  obtain ⟨before, after, hb, -⟩ := List.lookup_eq_some_iff.mp hh
  rw [hb]
  exact List.mem_append_right _ List.mem_cons_self

/-- A branch brings no merge commit of ours that was not moved to. -/
theorem Sound.clean (hs : Sound s) (hh : s.repo.head branch = some head) : Clean s head := by
  have hb := mem_of_head hh
  refine ⟨hs.branches _ hb, fun c hc hr => hs.shown c hc ?_⟩
  exact hs.visible_of_reaches hr (hs.visible_branch hb)

/-- The reads up to the tree of the merge. -/
theorem reads_prepare (hs : Sound s) (hp : s.phase = phase) : Reads s (s.prepare a phase) := by
  have hfail : ∀ e, Reads s (some (s.done (.error e))) := fun e => reads_done (nofun)
  have hon := hs.phase
  rw [hp] at hon
  cases phase with
  | head c =>
    simp only [World.prepare]
    split
    · exact hfail _
    · rename_i actual hhead
      split
      · rename_i he
        exact reads_goto _ ⟨hon, hs.clean (he ▸ hhead)⟩
      · exact reads_done (nofun)
  | readMain c =>
    simp only [World.prepare]
    split
    · exact hfail _
    · exact reads_goto _ ⟨hon.1, hon.2, .refl⟩
  | worktrees c main =>
    simp only [World.prepare]
    split
    · exact reads_goto _ hon
    · exact hfail _
  | mergeTree c main checkout =>
    simp only [World.prepare]
    split
    · exact reads_goto _ hon
    · exact hfail _
  | loadTask c main checkout tree =>
    simp only [World.prepare]
    split
    · exact reads_goto _ hon
    · exact hfail _
  | idle | verify _ | history _ | loadIntent _ | intent _ _ | onMain _ | firstOnMain _
  | commitTree _ _ _ _ _ | loadProgress _ | advanceTask _ | recheckMain _ | recheckHead _
  | move _ => exact reads_none

/-- A step keeps the invariant, and reports only a merge that is on main. -/
structure Steps (s s' : World) (o : Option Result) : Prop where
  sound : Sound s'
  reported : ∀ i, o = some (.ok (.merged i)) → Reported s s' i

theorem Reads.steps (hs : Sound s) {step : Option (World × Option Result)} (hr : Reads s step)
    (h : step = some (s', o)) : Steps s s' o := by
  obtain ⟨⟨phase, rfl, ha⟩, hrep⟩ := hr s' o h
  exact ⟨hs.at phase ha, hrep⟩

/-- An intent that is stored is among the events, and the others stay. -/
theorem intents_advanceTask {store : Store} {version : Nat}
    (h : s.store.advanceTask version i = (.written, store)) :
    i ∈ store.intents ∧ ∀ j ∈ s.store.intents, j ∈ store.intents := by
  unfold Store.advanceTask at h
  split at h
  · split at h
    · obtain ⟨-, rfl⟩ := Prod.mk.inj h
      exact ⟨List.mem_cons_self, fun j hj => List.mem_cons_of_mem _ hj⟩
    · cases (Prod.mk.inj h).1
  · cases (Prod.mk.inj h).1

theorem grows_store {store : Store} (hi : ∀ j ∈ s.store.intents, j ∈ store.intents) :
    Grows s { s with store } :=
  ⟨⟨[], (List.append_nil _).symm⟩, .refl, rfl, fun _ => Or.inl, hi⟩

/-- What is stored does not concern the commits. -/
theorem Sound.store (hs : Sound s) {store : Store}
    (hi : ∀ j ∈ s.store.intents, j ∈ store.intents) : Sound { s with store } :=
  ⟨hs.founded, hs.main, hs.branches, hs.made, hs.moved, hs.shown, hs.unique,
    hs.phase.grows hs (grows_store hi) hs.founded⟩

/-- The merge commit, and its intent. -/
theorem steps_plan (hs : Sound s) (hp : s.phase = phase)
    (h : s.plan task a phase = some (s', o)) : Steps s s' o ∧ s'.repo.main = s.repo.main := by
  have hon := hs.phase
  rw [hp] at hon
  cases phase with
  | commitTree c main checkout tree row =>
    let content : Content := ⟨tree, mergeMessage task c.branch row.title, a.stamp⟩
    obtain ⟨hsound, hg, hlt, hparents⟩ := hs.commitTree hon content
    have hmain : (s.commitTree [main, c.expectedHead] content).1.repo.main = s.repo.main := by
      unfold World.commitTree
      split <;> rfl
    simp only [World.plan] at h
    split at h
    · obtain ⟨rfl, rfl⟩ := Prod.mk.inj (Option.some.inj h)
      exact ⟨⟨hsound, nofun⟩, hmain⟩
    · obtain ⟨rfl, rfl⟩ := Prod.mk.inj (Option.some.inj h)
      refine ⟨⟨hsound.at _ ?_, nofun⟩, hmain⟩
      exact ⟨Ready.grows hon hs (hg.trans (grows_phase _ _)) hsound.founded, hlt, hparents⟩
  | loadProgress p =>
    simp only [World.plan] at h
    split at h
    · obtain ⟨rfl, rfl⟩ := Prod.mk.inj (Option.some.inj h)
      exact ⟨⟨hs.at _ hon, nofun⟩, rfl⟩
    · obtain ⟨rfl, rfl⟩ := Prod.mk.inj (Option.some.inj h)
      exact ⟨⟨hs.idle, nofun⟩, rfl⟩
  | advanceTask p =>
    simp only [World.plan] at h
    split at h
    · obtain ⟨rfl, rfl⟩ := Prod.mk.inj (Option.some.inj h)
      exact ⟨⟨hs.idle, nofun⟩, rfl⟩
    · split at h
      · rename_i store hstored
        obtain ⟨rfl, rfl⟩ := Prod.mk.inj (Option.some.inj h)
        obtain ⟨hnew, hold⟩ := intents_advanceTask hstored
        have hmade : Made { s with store } p := Made.grows hon hs (grows_store hold) hs.founded
        exact ⟨⟨(hs.store hold).at _ ⟨hmade, hnew⟩, nofun⟩, rfl⟩
      · obtain ⟨rfl, rfl⟩ := Prod.mk.inj (Option.some.inj h)
        exact ⟨⟨hs.idle, nofun⟩, rfl⟩
  | idle | verify _ | history _ | loadIntent _ | intent _ _ | onMain _ | firstOnMain _ | head _
  | readMain _ | worktrees _ _ | mergeTree _ _ _ | loadTask _ _ _ _ | recheckMain _
  | recheckHead _ | move _ => cases h

/-- What a move of main needs: its own merge commit of the main that was read, in front of main,
with a stored intent. -/
structure Moves (s s' : World) (p : Planned) : Prop where
  phase : s.phase = .move p
  main : s'.repo = { s.repo with main := p.commit }
  forward : s.repo.commits.Reaches s.repo.main p.commit
  parents : s.repo.commits.parents p.commit = [p.main, p.call.expectedHead]
  intent : p.commit ∈ s.store.intents

/-- The references again, and the move. -/
theorem steps_finish (hs : Sound s) (hp : s.phase = phase)
    (h : s.finish a phase = some (s', o)) :
    Steps s s' o ∧ (s'.repo = s.repo ∨ ∃ p, Moves s s' p) := by
  have hon := hs.phase
  rw [hp] at hon
  cases phase with
  | recheckMain p =>
    simp only [World.finish] at h
    split at h
    · obtain ⟨rfl, rfl⟩ := Prod.mk.inj (Option.some.inj h)
      exact ⟨⟨hs.at _ hon, nofun⟩, Or.inl rfl⟩
    · obtain ⟨rfl, rfl⟩ := Prod.mk.inj (Option.some.inj h)
      exact ⟨⟨hs.idle, nofun⟩, Or.inl rfl⟩
  | recheckHead p =>
    simp only [World.finish] at h
    split at h
    · obtain ⟨rfl, rfl⟩ := Prod.mk.inj (Option.some.inj h)
      exact ⟨⟨hs.at _ hon, nofun⟩, Or.inl rfl⟩
    · obtain ⟨rfl, rfl⟩ := Prod.mk.inj (Option.some.inj h)
      exact ⟨⟨hs.idle, nofun⟩, Or.inl rfl⟩
  | move p =>
    simp only [World.finish] at h
    split at h
    · obtain ⟨rfl, rfl⟩ := Prod.mk.inj (Option.some.inj h)
      exact ⟨⟨hs.idle, nofun⟩, Or.inl rfl⟩
    · rename_i repo hmove
      have hs' : s' = { s with repo, moved := p.commit :: s.moved, phase := .idle } := by
        split at h
        · exact (Prod.mk.inj (Option.some.inj h)).1.symm
        · exact (Prod.mk.inj (Option.some.inj h)).1.symm
      have ho : ∀ i, o = some (.ok (.merged i)) → i = p.commit := by
        intro i hi
        split at h
        · cases (Prod.mk.inj (Option.some.inj h)).2.trans hi
        · cases (Prod.mk.inj (Option.some.inj h)).2.trans hi
          rfl
      have hhead : s.repo.commits.Reaches p.call.expectedHead p.commit :=
        reaches_of_merges (merges_made hon.1)
      have hrep : ∀ c, s.phase.call = some c → s.repo.commits.Reaches c.expectedHead p.commit := by
        intro c hc
        rw [hp] at hc
        obtain rfl := Option.some.inj hc
        exact hhead
      subst hs'
      refine ⟨⟨hs.move hon.1 hmove, fun i hi => ?_⟩, ?_⟩
      · rw [ho i hi]
        rcases moveMain_cases hs hon.1 hmove with ⟨-, rfl⟩ | ⟨hback, rfl⟩
        · exact ⟨.refl, hrep⟩
        · exact ⟨hback, hrep⟩
      · rcases moveMain_cases hs hon.1 hmove with ⟨hff, hrepo⟩ | ⟨-, hrepo⟩
        · exact Or.inr ⟨p, hp, hrepo, hff, hon.1.parents, hon.2⟩
        · exact Or.inl hrepo
  | idle | verify _ | history _ | loadIntent _ | intent _ _ | onMain _ | firstOnMain _ | head _
  | readMain _ | worktrees _ _ | mergeTree _ _ _ | loadTask _ _ _ _ | commitTree _ _ _ _ _
  | loadProgress _ | advanceTask _ => cases h

end Agend.Forge
