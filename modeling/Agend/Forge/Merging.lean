import Agend.Forge.Once

/-! The local merge over every run: at most one merge of a head, reported only when it is on main,
found again by later calls, and main moved forward only. -/
namespace Agend.Forge

open Library
open Library.History
open Agend.Engine (taskIdOfBranch)

/-- Ends the call that runs, or begins one. -/
def Event.stops : Event → Bool
  | .call _ | .crash => true
  | _ => false

def Event.works : Event → Bool
  | .work _ => true
  | _ => false

/-- The call and the main that it read. -/
def Phase.base : Phase → Option (Call × Nat)
  | .worktrees c main | .mergeTree c main _ | .loadTask c main _ _ | .commitTree c main _ _ _ =>
    some (c, main)
  | .loadProgress p | .advanceTask p | .recheckMain p | .recheckHead p | .move p =>
    some (p.call, p.main)
  | _ => none

/-- The steps until an earlier merge is found, at most. -/
def Phase.left : Phase → Nat
  | .verify _ => 6
  | .history _ => 5
  | .loadIntent _ => 4
  | .intent _ _ => 3
  | .onMain _ => 2
  | .firstOnMain _ => 1
  | _ => 0

/-- The call looks for an earlier merge, and its head is on main. -/
structure Finding (s : World) (c : Call) : Prop where
  call : s.phase.call = some c
  left : 0 < s.phase.left
  onMain : s.repo.commits.Reaches c.expectedHead s.repo.main

variable {task : String} {s s' : World} {c : Call} {p : Planned} {a : Answers} {e : Event}
  {o : Option Result} {main : Nat} {phase : Phase}
  {h : List (Transition World Event (Option Result))}

theorem work_cases (hw : s.work task a = some (s', o)) :
    s.find task s.phase = some (s', o) ∨ s.prepare a s.phase = some (s', o) ∨
      s.plan task a s.phase = some (s', o) ∨ s.finish a s.phase = some (s', o) := by
  unfold World.work at hw
  rcases Option.or_eq_some_iff.mp hw with hw | ⟨-, hw⟩
  · exact Or.inl hw
  rcases Option.or_eq_some_iff.mp hw with hw | ⟨-, hw⟩
  · exact Or.inr (Or.inl hw)
  rcases Option.or_eq_some_iff.mp hw with hw | ⟨-, hw⟩
  · exact Or.inr (Or.inr (Or.inl hw))
  · exact Or.inr (Or.inr (Or.inr hw))

/-- One step of the worker. -/
theorem Sound.work (hs : Sound s) (hw : s.work task a = some (s', o)) :
    Steps s s' o ∧ (s'.repo.main = s.repo.main ∨ ∃ p, Moves s s' p) := by
  have hread : ∀ {step}, Reads s step → step = some (s', o) →
      Steps s s' o ∧ (s'.repo.main = s.repo.main ∨ ∃ p, Moves s s' p) := by
    intro step hr hstep
    obtain ⟨⟨phase, rfl, -⟩, -⟩ := hr s' o hstep
    exact ⟨hr.steps hs hstep, Or.inl rfl⟩
  rcases work_cases hw with hw | hw | hw | hw
  · exact hread (reads_find hs rfl) hw
  · exact hread (reads_prepare hs rfl) hw
  · exact ⟨(steps_plan hs rfl hw).1, Or.inl (steps_plan hs rfl hw).2⟩
  · obtain ⟨hsteps, hmain | hmoves⟩ := steps_finish hs rfl hw
    · exact ⟨hsteps, Or.inl (by rw [hmain])⟩
    · exact ⟨hsteps, Or.inr hmoves⟩

/-- What is not the worker's leaves it where it is. -/
theorem Sound.others (hs : Sound s) (hn : s.next task e = some (s', o))
    (he : e.stops = false) (hwork : e.works = false) :
    Sound s' ∧ Grows s s' ∧ s'.phase = s.phase ∧ o = none := by
  cases e with
  | call c => cases he
  | crash => cases he
  | work a => cases hwork
  | commit branch parents content =>
    simp only [World.next] at hn
    split at hn
    · rename_i hall
      obtain ⟨rfl, rfl⟩ := Prod.mk.inj (Option.some.inj hn)
      exact ⟨hs.commit (List.all_eq_true.mp hall), ⟨⟨_, rfl⟩, .refl, rfl, fun _ => Or.inl, fun _ => id⟩,
        rfl, rfl⟩
    · cases hn
  | reset branch i =>
    simp only [World.next] at hn
    split at hn
    · rename_i hv
      obtain ⟨rfl, rfl⟩ := Prod.mk.inj (Option.some.inj hn)
      refine ⟨hs.refs rfl hs.visible_main .refl fun b hb => ?_,
        ⟨⟨[], (List.append_nil _).symm⟩, .refl, rfl, fun _ => Or.inl, fun _ => id⟩, rfl, rfl⟩
      rcases mem_setBranch hb with he | hb
      · rw [he]
        exact hv
      · exact hs.visible_branch hb
    · cases hn
  | push i =>
    simp only [World.next] at hn
    split at hn
    · rename_i hboth
      obtain ⟨hv, hff⟩ := Bool.and_eq_true_iff.mp hboth
      have hff := (isAncestor_iff hs.founded).mp hff
      obtain ⟨rfl, rfl⟩ := Prod.mk.inj (Option.some.inj hn)
      exact ⟨hs.refs rfl hv hff fun b => hs.visible_branch,
        ⟨⟨[], (List.append_nil _).symm⟩, hff, rfl, fun _ => Or.inl, fun _ => id⟩, rfl, rfl⟩
    · cases hn
  | store row progress =>
    simp only [World.next] at hn
    obtain ⟨rfl, rfl⟩ := Prod.mk.inj (Option.some.inj hn)
    exact ⟨hs.store fun _ => id, grows_store fun _ => id, rfl, rfl⟩

/-- A call begins, or what ran is gone. -/
theorem Sound.stops (hs : Sound s) (hn : s.next task e = some (s', o)) (he : e.stops = true) :
    Sound s' ∧ s'.repo = s.repo ∧ s'.phase.base = none ∧ ∀ i, o ≠ some (.ok (.merged i)) := by
  cases e with
  | call c =>
    simp only [World.next] at hn
    split at hn
    · split at hn
      · obtain ⟨rfl, rfl⟩ := Prod.mk.inj (Option.some.inj hn)
        exact ⟨hs.idle, rfl, rfl, fun _ => nofun⟩
      · split at hn
        · obtain ⟨rfl, rfl⟩ := Prod.mk.inj (Option.some.inj hn)
          exact ⟨hs.at _ trivial, rfl, rfl, fun _ => nofun⟩
        · cases hn
    · cases hn
  | crash =>
    obtain ⟨rfl, rfl⟩ := Prod.mk.inj (Option.some.inj hn)
    exact ⟨hs.idle, rfl, rfl, fun _ => nofun⟩
  | work _ | commit _ _ _ | reset _ _ | push _ | store _ _ => cases he

/-- Every step keeps the invariant. -/
theorem Sound.next (hs : Sound s) (hn : s.next task e = some (s', o)) : Sound s' := by
  cases he : e.stops with
  | true => exact (hs.stops hn he).1
  | false =>
    cases hwork : e.works with
    | false => exact (hs.others hn he hwork).1
    | true =>
      cases e with
      | work a => exact (hs.work hn).1.sound
      | call _ | crash | commit _ _ _ | reset _ _ | push _ | store _ _ => cases hwork

theorem World.Fresh.sound (hf : s.Fresh) : Sound s where
  founded := hf.founded
  main := hf.main
  branches := hf.branches
  made := hf.made ▸ List.forall_mem_nil _
  moved := hf.moved ▸ List.forall_mem_nil _
  shown := hf.made ▸ List.forall_mem_nil _
  unique := hf.moved ▸ List.forall_mem_nil _
  phase := hf.phase ▸ trivial

/-- The read of main by the call that runs. -/
def ReadMain (c : Call) (main : Nat) (t : Transition World Event (Option Result)) : Prop :=
  t.event.works = true ∧ t.before.phase = .readMain c ∧ t.before.repo.main = main

/-- A step that changes nothing but the place in the call, and returns nothing or a merge. -/
structure Quiet (t : Transition World Event (Option Result)) : Prop where
  repo : t.after.repo = t.before.repo
  store : t.after.store = t.before.store
  made : t.after.made = t.before.made
  moved : t.after.moved = t.before.moved
  output : t.output = none ∨ ∃ i, t.output = some (.ok (.merged i))

theorem Finding.grows (hf : Finding s c) (hg : Grows s s') (hp : s'.phase = s.phase) :
    Finding s' c where
  call := by rw [hp]; exact hf.call
  left := by rw [hp]; exact hf.left
  onMain := (hg.reaches hf.onMain).trans hg.main

/-- A call whose head is on main is only ever looking for the merge. -/
theorem Finding.find (hf : Finding s c) (hs : Sound s) (hfind : s.find task s.phase = some (s', o)) :
    (s'.phase = .idle ∧ ∃ i, o = some (.ok (.merged i))) ∨
      o = none ∧ Finding s' c ∧ s'.phase.left < s.phase.left := by
  have hnext : ∀ phase : Phase, phase.call = some c → 0 < phase.left →
      Finding { s with phase } c := fun phase hc hl => ⟨hc, hl, hf.onMain⟩
  have hanc := (isAncestor_iff hs.founded).mpr hf.onMain
  have hcall := hf.call
  have hlen := Nat.lt_of_le_of_lt (hf.onMain.le hs.founded) hs.main
  have hgo : ∀ phase' : Phase, phase'.call = some c → 0 < phase'.left →
      phase'.left < s.phase.left → some (s.goto phase') = some (s', o) →
      (s'.phase = .idle ∧ ∃ i, o = some (.ok (.merged i))) ∨
        o = none ∧ Finding s' c ∧ s'.phase.left < s.phase.left := by
    intro phase' hc hpos hlt he
    obtain ⟨rfl, rfl⟩ := Prod.mk.inj (Option.some.inj he)
    exact Or.inr ⟨rfl, hnext phase' hc hpos, hlt⟩
  have hdone : ∀ i, some (s.done (.ok (.merged i))) = some (s', o) →
      (s'.phase = .idle ∧ ∃ i, o = some (.ok (.merged i))) ∨
        o = none ∧ Finding s' c ∧ s'.phase.left < s.phase.left := by
    intro i he
    obtain ⟨rfl, rfl⟩ := Prod.mk.inj (Option.some.inj he)
    exact Or.inl ⟨rfl, i, rfl⟩
  cases hp : s.phase with
  | verify c' =>
    rw [hp] at hcall hfind hgo
    obtain rfl := Option.some.inj hcall
    simp only [World.find, hlen, if_true] at hfind
    exact hp ▸ hgo (.history c') rfl (by simp [Phase.left]) (by simp [Phase.left]) hfind
  | history c' =>
    rw [hp] at hcall hfind hgo
    obtain rfl := Option.some.inj hcall
    simp only [World.find] at hfind
    split at hfind
    · exact hp ▸ hdone _ hfind
    · exact hp ▸ hgo (.loadIntent c') rfl (by simp [Phase.left]) (by simp [Phase.left]) hfind
  | loadIntent c' =>
    rw [hp] at hcall hfind hgo
    obtain rfl := Option.some.inj hcall
    simp only [World.find] at hfind
    split at hfind
    · exact hp ▸ hgo (.intent c' _) rfl (by simp [Phase.left]) (by simp [Phase.left]) hfind
    · exact hp ▸ hgo (.onMain c') rfl (by simp [Phase.left]) (by simp [Phase.left]) hfind
  | intent c' i =>
    rw [hp] at hcall hfind hgo
    obtain rfl := Option.some.inj hcall
    simp only [World.find] at hfind
    split at hfind
    · exact hp ▸ hdone _ hfind
    · exact hp ▸ hgo (.onMain c') rfl (by simp [Phase.left]) (by simp [Phase.left]) hfind
  | onMain c' =>
    rw [hp] at hcall hfind hgo
    obtain rfl := Option.some.inj hcall
    simp only [World.find, hanc, if_true] at hfind
    exact hp ▸ hgo (.firstOnMain c') rfl (by simp [Phase.left]) (by simp [Phase.left]) hfind
  | firstOnMain c' =>
    rw [hp] at hcall hfind hgo
    obtain rfl := Option.some.inj hcall
    simp only [World.find] at hfind
    split at hfind
    · exact hp ▸ hdone _ hfind
    · rename_i hnone
      have hsome := firstOnMain_isSome hs hf.onMain
      rw [hnone] at hsome
      cases hsome
  | idle | head _ | readMain _ | worktrees _ _ | mergeTree _ _ _ | loadTask _ _ _ _
  | commitTree _ _ _ _ _ | loadProgress _ | advanceTask _ | recheckMain _ | recheckHead _
  | move _ =>
    have hleft := hf.left
    rw [hp] at hleft
    cases hleft

/-- The step of a call that looks for a merge is there. -/
theorem Finding.find_isSome (hf : Finding s c) : (s.find task s.phase).isSome = true := by
  have hleft := hf.left
  cases hp : s.phase with
  | verify _ | history _ | loadIntent _ | intent _ _ | onMain _ | firstOnMain _ =>
    simp only [World.find]
    split <;> rfl
  | idle | head _ | readMain _ | worktrees _ _ | mergeTree _ _ _ | loadTask _ _ _ _
  | commitTree _ _ _ _ _ | loadProgress _ | advanceTask _ | recheckMain _ | recheckHead _
  | move _ =>
    rw [hp] at hleft
    cases hleft

theorem work_of_find (a : Answers) (hfind : s.find task s.phase = some (s', o)) :
    s.work task a = some (s', o) := by
  unfold World.work
  rw [hfind]
  rfl

/-- Its steps change nothing. -/
theorem Finding.quiet (hf : Finding s c) (hs : Sound s) (hw : s.work task a = some (s', o)) :
    Quiet ⟨s, .work a, s', o⟩ ∧ ((s'.phase = .idle ∧ ∃ i, o = some (.ok (.merged i))) ∨
      o = none ∧ Finding s' c ∧ s'.phase.left < s.phase.left) := by
  have hsome : (s.find task s.phase).isSome = true := hf.find_isSome
  obtain ⟨⟨s1, o1⟩, hfind⟩ := Option.isSome_iff_exists.mp hsome
  obtain ⟨rfl, rfl⟩ := Prod.mk.inj (Option.some.inj ((work_of_find a hfind).symm.trans hw))
  have hreads : Reads s (s.find task s.phase) := reads_find hs rfl
  obtain ⟨⟨phase, rfl, -⟩, -⟩ := hreads _ _ hfind
  have hor := hf.find hs hfind
  refine ⟨⟨rfl, rfl, rfl, rfl, ?_⟩, hor⟩
  rcases hor with ⟨-, i, hi⟩ | ⟨hnone, -⟩
  · exact Or.inr ⟨i, hi⟩
  · exact Or.inl hnone

theorem work_idle (hp : s.phase = .idle) : s.work task a = none := by
  unfold World.work
  rw [hp]
  rfl

/-- After its call began, with the head on main: it found the merge, or looks for it. -/
def Looked (newer : List (Transition World Event (Option Result))) (s : World) (c : Call) : Prop :=
  (∀ u ∈ newer, u.event.works = true → Quiet u) ∧
    (s.phase = .idle ∧ (∃ u ∈ newer, ∃ i, u.output = some (.ok (.merged i))) ∨
      Finding s c ∧ newer.countP (fun u => u.event.works) + s.phase.left ≤ 6)

theorem Looked.others {newer : List (Transition World Event (Option Result))}
    (hl : Looked newer s c) (hg : Grows s s') (hp : s'.phase = s.phase)
    (hwork : e.works = false) : Looked (⟨s, e, s', o⟩ :: newer) s' c := by
  obtain ⟨hquiet, hor⟩ := hl
  refine ⟨List.forall_mem_cons.mpr ⟨fun hw => ?_, hquiet⟩, ?_⟩
  · cases hwork.symm.trans hw
  · rcases hor with ⟨hidle, u, hu, hm⟩ | ⟨hf, hle⟩
    · exact Or.inl ⟨hp.trans hidle, u, List.mem_cons_of_mem _ hu, hm⟩
    · refine Or.inr ⟨hf.grows hg hp, ?_⟩
      rw [List.countP_cons_of_neg (by rw [hwork]; exact Bool.false_ne_true), hp]
      exact hle

theorem Looked.work {newer : List (Transition World Event (Option Result))}
    (hl : Looked newer s c) (hs : Sound s) (hw : s.work task a = some (s', o)) :
    Looked (⟨s, .work a, s', o⟩ :: newer) s' c := by
  obtain ⟨hquiet, hor⟩ := hl
  rcases hor with ⟨hidle, -⟩ | ⟨hf, hle⟩
  · cases (work_idle hidle).symm.trans hw
  · obtain ⟨hq, hor⟩ := hf.quiet hs hw
    refine ⟨List.forall_mem_cons.mpr ⟨fun _ => hq, hquiet⟩, ?_⟩
    rcases hor with ⟨hidle, hm⟩ | ⟨-, hf, hlt⟩
    · exact Or.inl ⟨hidle, _, List.mem_cons_self, hm⟩
    · refine Or.inr ⟨hf, ?_⟩
      rw [List.countP_cons_of_pos rfl]
      omega

/-- The local merge of a task, over a run. -/
structure Exact (task : String) (h : List (Transition World Event (Option Result))) (s : World) :
    Prop where
  /-- At most one of the merge commits that were made of a head is on main. -/
  once : ∀ head, ∀ c ∈ s.made, ∀ d ∈ s.made, merges s.repo.commits c = some head →
    merges s.repo.commits d = some head → s.repo.commits.Reaches c s.repo.main →
    s.repo.commits.Reaches d s.repo.main → c = d
  /-- A merge that is reported is on main, and the head of the call is its ancestor. -/
  reported : ∀ t ∈ h, ∀ i, t.output = some (.ok (.merged i)) → ∃ c, t.before.phase.call = some c ∧
    t.after.repo.commits.Reaches i t.after.repo.main ∧
    t.after.repo.commits.Reaches c.expectedHead i
  /-- A call on a head that main reaches changes nothing, and until it is cut off it has returned
  a merge, or returns one with less than six further steps, which nothing prevents. -/
  found : ∀ newer t older c, h = newer ++ t :: older → t.event = .call c →
    taskIdOfBranch c.branch = some task →
    t.before.repo.commits.Reaches c.expectedHead t.before.repo.main →
    (∀ u ∈ newer, u.event.stops = false) → (∀ u ∈ newer, u.event.works = true → Quiet u) ∧
      ((∃ u ∈ newer, ∃ i, u.output = some (.ok (.merged i))) ∨
        s.phase.call = some c ∧ newer.countP (fun u => u.event.works) < 6 ∧
          ∀ a, ∃ s' o, (forge task).step s (.work a) s' o)
  /-- Main is moved forward only, to the merge commit of the main that the call read with its
  head, whose intent is stored. -/
  moves : ∀ newer t older, h = newer ++ t :: older → t.event.works = true →
    t.after.repo.main ≠ t.before.repo.main → ∃ p, Moves t.before t.after p ∧
      Since (fun u => u.event.stops = true) (ReadMain p.call p.main) older

theorem Sound.once (hs : Sound s) {head i j : Nat} (hi : i ∈ s.made) (hj : j ∈ s.made)
    (hmi : merges s.repo.commits i = some head) (hmj : merges s.repo.commits j = some head)
    (hri : s.repo.commits.Reaches i s.repo.main) (hrj : s.repo.commits.Reaches j s.repo.main) :
    i = j := by
  have hvisible : ∀ k, s.repo.commits.Reaches k s.repo.main → s.repo.visible k = true :=
    fun k hk => (visible_iff hs.founded).mpr (Or.inl hk)
  exact hs.unique i (hs.shown i hi (hvisible i hri)) j (hs.shown j hj (hvisible j hrj))
    (hmi.trans hmj.symm)

/-- Only a call that runs reports a merge. -/
theorem Sound.reported (hs : Sound s) (hn : s.next task e = some (s', o)) {i : Nat}
    (ho : o = some (.ok (.merged i))) : ∃ c, s.phase.call = some c ∧
      s'.repo.commits.Reaches i s'.repo.main ∧ s'.repo.commits.Reaches c.expectedHead i := by
  cases he : e.stops with
  | true => exact ((hs.stops hn he).2.2.2 i ho).elim
  | false =>
    cases hwork : e.works with
    | false => cases (hs.others hn he hwork).2.2.2.symm.trans ho
    | true =>
      cases e with
      | work a =>
        obtain ⟨hon, hof⟩ := (hs.work hn).1.reported i ho
        cases hc : s.phase.call with
        | some c => exact ⟨c, rfl, hon, hof c hc⟩
        | none =>
          have hidle : s.phase = .idle := by
            cases hp : s.phase with
            | idle => rfl
            | _ =>
              rw [hp] at hc
              cases hc
          cases (work_idle hidle).symm.trans hn
      | call _ | crash | commit _ _ _ | reset _ _ | push _ | store _ _ => cases hwork

/-- A task with one commit on its branch, and main where the branch left it. -/
def branched : World where
  repo := ⟨[⟨[], ⟨"t0", ["root"], 0⟩⟩, ⟨[0], ⟨"t1", ["work"], 1⟩⟩], 0, [("agend/T1/dev", 1)]⟩
  store := ⟨some ⟨["title"], 3⟩, some none, []⟩
  phase := .idle
  made := []
  moved := []

/-- The daemon ends right after main was moved; a fresh call finds the merge. -/
def interrupted : List Event :=
  let found : Answers := ⟨.ok "/repo", [], .ok "t2", 2, .ok (), none⟩
  let call : Event := .call ⟨"agend/T1/dev", 1, none⟩
  let work : Event := .work found
  call :: List.replicate 14 work ++ [.work { found with lost := some "killed" }, .crash, call] ++
    List.replicate 2 work

end Agend.Forge
