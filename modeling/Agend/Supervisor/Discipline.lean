import Agend.Supervisor.Restart

/-! The discipline of restarts, over every order of events: one death for each start, never more
starts than the budget grants, none after giving up, and no fresh session once one was recorded. -/
namespace Agend.Supervisor

open Library
open Agend.Runtime (Backend Instance InstanceStatus)

namespace Note

def isStart : Note → Bool
  | .start _ _ => true
  | _ => false

def isAutomatic : Note → Bool
  | .start .automatic _ => true
  | _ => false

def isGrant : Note → Bool
  | .granted _ => true
  | _ => false

end Note

/-- No death since the last start. -/
def Rested : List Note → Prop
  | [] => True
  | .death :: _ => False
  | .start _ _ :: _ => True
  | _ :: log => Rested log

/-- Nothing was given up since the last retry. -/
def Unfailed : List Note → Prop
  | [] => True
  | .failed :: _ => False
  | .retried :: _ => True
  | _ :: log => Unfailed log

/-- The grants since the last retry, newest first. -/
def grants : List Note → List Nat
  | [] => []
  | .retried :: _ => []
  | .granted now :: log => now :: grants log
  | _ :: log => grants log

/-- What a note says about the notes before it. -/
def Allowed (n : Note) (log : List Note) : Prop :=
  match n with
  | .death => Rested log
  | .start by_ resume =>
    (by_ = .automatic → Unfailed log) ∧ (.recorded ∈ log → resume = true)
  | _ => True

/-- Every note of the log was allowed when it was made. -/
def Lawful : List Note → Prop
  | [] => True
  | n :: log => Allowed n log ∧ Lawful log

/-- The agent runs, or will be started again. -/
def World.alive (s : World) : Bool :=
  s.watch.any fun w => w.state ≠ .failed

def World.isUp (s : World) : Bool :=
  s.watch.any fun w => w.state = .up

def World.isRestarting (s : World) : Bool :=
  s.watch.any fun w => w.state ≠ .up && w.state ≠ .failed

def World.restarts (s : World) : List Nat :=
  (s.watch.map fun w => w.budget.restarts).getD []

/-- What holds of the log whatever the watch is. -/
structure Sound (s : World) : Prop where
  lawful : Lawful s.log
  counted : s.log.countP Note.isAutomatic ≤ s.log.countP Note.isGrant
  budget : Window.Tracks maxRestarts restartWindowMs (grants s.log) s.restarts s.clock
  recorded : .recorded ∈ s.log → s.row.sessionStarted = true

structure Disciplined (s : World) : Prop extends Sound s where
  rested : s.isUp = true → Rested s.log
  unfailed : s.alive = true → Unfailed s.log
  granted : s.isRestarting = true →
    s.log.countP Note.isAutomatic + 1 ≤ s.log.countP Note.isGrant
  running : .recorded ∈ s.log → s.alive = true → s.row.status = .running

variable {s s' : World} {by_ : Starter} {resume : Bool} {a : Answers} {generation now : Nat}
  {held unread : Bool} {stop : Except String Unit} {e : Event} {u : Unit}
  {h : List (Transition World Event Unit)}

theorem disciplined_init (hi : supervisor.init s) : Disciplined s := by
  obtain ⟨hw, -, hl⟩ := hi
  have hup : s.isUp = false := by rw [World.isUp, hw]; rfl
  have halive : s.alive = false := by rw [World.alive, hw]; rfl
  have hwaits : s.isRestarting = false := by rw [World.isRestarting, hw]; rfl
  refine ⟨⟨?_, ?_, ?_, fun hr => ?_⟩, ?_, ?_, ?_, fun hr => ?_⟩
  · rw [hl]
    trivial
  · rw [hl]
    exact Nat.le_refl _
  · simp only [hl, World.restarts, hw]
    exact Window.tracks_nil
  · rw [hl] at hr
    cases hr
  · rw [hup]
    intro hno
    cases hno
  · rw [halive]
    intro hno
    cases hno
  · rw [hwaits]
    intro hno
    cases hno
  · rw [hl] at hr
    cases hr

/-- Giving up is always possible. -/
theorem Sound.fail (hs : Sound s) : Disciplined s.fail := by
  have hwatch : s.fail.watch = s.watch.map fun w => { w with state := .failed } := rfl
  have halive : s.fail.alive = false := by
    rw [World.alive, hwatch]
    cases s.watch <;> rfl
  have hup : s.fail.isUp = false := by
    rw [World.isUp, hwatch]
    cases s.watch <;> rfl
  have hwaits : s.fail.isRestarting = false := by
    rw [World.isRestarting, hwatch]
    cases s.watch <;> rfl
  have hrestarts : s.fail.restarts = s.restarts := by
    rw [World.restarts, hwatch, World.restarts]
    cases s.watch <;> rfl
  refine ⟨⟨⟨trivial, hs.lawful⟩, hs.counted, ?_, fun hr => ?_⟩, ?_, ?_, ?_, fun _ => ?_⟩
  · rw [hrestarts]
    exact hs.budget
  · rcases List.mem_cons.mp hr with he | hr
    · cases he
    · exact hs.recorded hr
  · rw [hup]
    intro hno
    cases hno
  · rw [halive]
    intro hno
    cases hno
  · rw [hwaits]
    intro hno
    cases hno
  · rw [halive]
    intro hno
    cases hno

/-- An instance is up again once it was started after its last death. -/
theorem Sound.up (hs : Sound s) (hr : Rested s.log) (hu : Unfailed s.log)
    (hrun : .recorded ∈ s.log → s.row.status = .running) : Disciplined (s.up generation) := by
  have hrestarts : (s.up generation).restarts = s.restarts := by
    unfold World.up World.restarts
    cases s.watch <;> rfl
  refine ⟨⟨hs.lawful, hs.counted, ?_, hs.recorded⟩, fun _ => hr, fun _ => hu, ?_, fun h _ => hrun h⟩
  · rw [hrestarts]
    exact hs.budget
  · exact nofun

/-- A start is due: nothing was given up since the last retry, a restart was granted, and a
recorded session is resumed. -/
structure Due (s : World) (by_ : Starter) (resume : Bool) : Prop extends Sound s where
  unfailed : Unfailed s.log
  granted : by_ = .automatic → s.log.countP Note.isAutomatic + 1 ≤ s.log.countP Note.isGrant
  resumed : .recorded ∈ s.log → resume = true ∧ s.row.status = .running

theorem Sound.note {n : Note} (hs : Sound s) (hn : Allowed n s.log) (hr : n ≠ .recorded)
    (hc : n.isAutomatic = true → s.log.countP Note.isAutomatic + 1 ≤ s.log.countP Note.isGrant)
    (hg : grants (n :: s.log) = grants s.log) : Sound (s.note n) := by
  refine ⟨⟨hn, hs.lawful⟩, ?_, ?_, fun hm => ?_⟩
  · change (n :: s.log).countP _ ≤ (n :: s.log).countP _
    rw [List.countP_cons, List.countP_cons]
    have := hs.counted
    split_ifs with ha
    · have := hc ha
      omega
    · have := hc ha
      omega
    · omega
    · omega
  · change Window.Tracks _ _ (grants (n :: s.log)) s.restarts s.clock
    rw [hg]
    exact hs.budget
  · rcases List.mem_cons.mp hm with he | hm
    · exact absurd he.symm hr
    · exact hs.recorded hm

/-- The first `Spawn` was acknowledged. -/
theorem Sound.markRunning (hs : Sound s) : Sound s.markRunning :=
  ⟨⟨trivial, hs.lawful⟩, hs.counted, hs.budget, fun _ => rfl⟩

theorem Sound.attached (hs : Sound s) (hr : Rested s.log) (hu : Unfailed s.log)
    (hrun : .recorded ∈ s.log → s.row.status = .running) {result : Except String Nat}
    (hm : resume = false → Rested s.markRunning.log ∧ Unfailed s.markRunning.log) :
    Disciplined (s.attached resume result) := by
  unfold World.attached
  split
  · cases resume with
    | true => exact hs.up hr hu hrun
    | false => exact hs.markRunning.up (hm rfl).1 (hm rfl).2 fun _ => rfl
  · exact hs.up hr hu hrun

/-- However the attempt ends, the discipline is kept. -/
theorem Due.start (hd : Due s by_ resume) : Disciplined (s.start by_ resume a) := by
  have hsound : Sound (s.note (.start by_ resume)) := by
    refine hd.note ⟨fun _ => hd.unfailed, fun hr => (hd.resumed hr).1⟩ nofun (fun ha => ?_) rfl
    refine hd.granted ?_
    cases by_ <;> first | rfl | cases ha
  have hrun : Note.recorded ∈ (s.note (.start by_ resume)).log → s.row.status = .running := by
    intro hr
    rcases List.mem_cons.mp hr with he | hr
    · cases he
    · exact (hd.resumed hr).2
  unfold World.start
  dsimp only
  split
  · exact hsound.fail
  · split
    · exact hsound.up trivial hd.unfailed hrun
    · split
      · exact hsound.fail
      · exact hsound.fail
      · rename_i args _ _
        split
        · exact hsound.fail
        · have hlaunched : Sound ((s.note (.start by_ resume)).note (.launched args)) :=
            hsound.note trivial nofun nofun rfl
          have hrun' : Note.recorded ∈ ((s.note (.start by_ resume)).note (.launched args)).log →
              s.row.status = .running := by
            intro hr
            rcases List.mem_cons.mp hr with he | hr
            · cases he
            · exact hrun hr
          exact hlaunched.attached trivial hd.unfailed hrun' fun _ => ⟨trivial, hd.unfailed⟩

theorem isUp_of_current {w : Watch} (hc : s.current generation = some w) :
    s.watch = some w ∧ w.state = .up := by
  obtain ⟨hw, hcond⟩ := Option.filter_eq_some_iff.mp hc
  simp only [Bool.and_eq_true, decide_eq_true_eq] at hcond
  exact ⟨hw, hcond.2⟩

/-- A death is accepted after a start; its restart is granted, or it was the last. -/
theorem Disciplined.died (hd : Disciplined s) :
    Disciplined (s.died generation held unread s.clock) := by
  unfold World.died
  split
  · exact hd
  · rename_i w hc
    obtain ⟨hw, hup⟩ := isUp_of_current hc
    have hisUp : s.isUp = true := by
      rw [World.isUp, hw]
      simp [hup]
    have halive : s.alive = true := by
      rw [World.alive, hw]
      simp [hup]
    split_ifs
    · exact hd
    · have hdeath : Sound (s.note .death) :=
        hd.toSound.note (hd.rested hisUp) nofun nofun rfl
      dsimp only
      split
      · exact hdeath.fail
      · have hkept : s.restarts = w.budget.restarts := by
          rw [World.restarts, hw]
          rfl
        have htracks : Window.Tracks maxRestarts restartWindowMs (grants s.log)
            (Window.counting restartWindowMs w.budget.restarts s.clock) s.clock := by
          rw [← hkept]
          exact hd.budget.drop
        have hnext : ∀ budget n, w.budget.next s.clock = (budget, n) →
            n = none ∧ budget.restarts =
              Window.counting restartWindowMs w.budget.restarts s.clock ∨
            n.isSome = true ∧ Window.Tracks maxRestarts restartWindowMs (s.clock :: grants s.log)
              budget.restarts s.clock := by
          intro budget n h
          unfold RestartBudget.next at h
          dsimp only at h
          split_ifs at h with hfull
          · obtain ⟨rfl, rfl⟩ := Prod.mk.inj h
            exact Or.inl ⟨rfl, rfl⟩
          · obtain ⟨rfl, rfl⟩ := Prod.mk.inj h
            exact Or.inr ⟨rfl, htracks.grant (Nat.lt_of_not_le hfull)⟩
        split
        · rename_i budget hn
          rcases hnext budget none hn with ⟨-, hb⟩ | ⟨h, -⟩
          · refine Sound.fail ⟨hdeath.lawful, hdeath.counted, ?_, hdeath.recorded⟩
            change Window.Tracks _ _ (grants s.log) budget.restarts s.clock
            rw [hb]
            exact htracks
          · cases h
        · rename_i budget n hn
          rcases hnext budget (some n) hn with ⟨h, -⟩ | ⟨-, hb⟩
          · cases h
          · have hcount : (Note.granted s.clock :: (s.note .death).log).countP Note.isAutomatic =
                (s.note .death).log.countP Note.isAutomatic := List.countP_cons_of_neg nofun
            have hcount' : (Note.granted s.clock :: (s.note .death).log).countP Note.isGrant =
                (s.note .death).log.countP Note.isGrant + 1 := List.countP_cons_of_pos rfl
            have hle := hdeath.counted
            refine ⟨⟨⟨trivial, hdeath.lawful⟩, ?_, hb, fun hr => ?_⟩, nofun, fun _ => ?_, fun _ => ?_,
              fun hr _ => ?_⟩
            · change (Note.granted s.clock :: (s.note .death).log).countP _ ≤
                (Note.granted s.clock :: (s.note .death).log).countP _
              omega
            · exact hdeath.recorded ((List.mem_cons.mp hr).resolve_left nofun)
            · exact hd.unfailed halive
            · change (Note.granted s.clock :: (s.note .death).log).countP _ + 1 ≤
                (Note.granted s.clock :: (s.note .death).log).countP _
              omega
            · have hr := (List.mem_cons.mp hr).resolve_left nofun
              exact hd.running ((List.mem_cons.mp hr).resolve_left nofun) halive

theorem Disciplined.launchBindingRejected (hd : Disciplined s) :
    Disciplined (s.launchBindingRejected generation) := by
  unfold World.launchBindingRejected
  split
  · exact hd
  · exact hd.toSound.fail

theorem waits_of_waiting (hw : s.waiting generation = true) :
    s.isRestarting = true ∧ s.alive = true := by
  unfold World.waiting at hw
  unfold World.isRestarting World.alive
  cases hwatch : s.watch with
  | none =>
    rw [hwatch] at hw
    cases hw
  | some w =>
    rw [hwatch] at hw
    cases hst : w.state <;> simp_all

/-- A restart that was granted is due. -/
theorem Disciplined.restart (hd : Disciplined s) :
    Disciplined (s.restart generation held stop unread a) := by
  unfold World.restart
  by_cases hno : (!s.waiting generation || held) = true
  · rw [if_pos hno]
    exact hd
  · rw [if_neg hno]
    split
    · exact hd.toSound.fail
    · by_cases hu : unread = true
      · rw [if_pos hu]
        exact hd
      · rw [if_neg hu]
        simp only [Bool.or_eq_true, Bool.not_eq_true', not_or, Bool.not_eq_false] at hno
        have hrestarting := waits_of_waiting hno.1
        refine Due.start ⟨hd.toSound, hd.unfailed hrestarting.2,
          fun _ => hd.granted hrestarting.1, fun hr => ?_⟩
        have hrun := hd.running hr hrestarting.2
        exact ⟨decide_eq_true hrun, hrun⟩

/-- A retry starts over: with an empty budget, and with the session that was recorded. -/
theorem Disciplined.retry (hd : Disciplined s) : Disciplined (s.retry held stop unread a) := by
  unfold World.retry
  by_cases hheld : held = true
  · rw [if_pos hheld]
    exact hd
  · rw [if_neg hheld]
    split
    · exact hd.toSound.fail
    · by_cases hu : unread = true
      · rw [if_pos hu]
        exact hd
      · rw [if_neg hu]
        refine Due.start ⟨⟨⟨trivial, hd.lawful⟩, hd.counted, Window.tracks_nil, fun hr => ?_⟩,
          trivial, nofun, fun hr => ?_⟩
        · exact hd.recorded ((List.mem_cons.mp hr).resolve_left nofun)
        · have hstarted := hd.recorded ((List.mem_cons.mp hr).resolve_left nofun)
          refine ⟨hstarted, ?_⟩
          change (if s.row.sessionStarted then InstanceStatus.running else .new) = .running
          rw [if_pos hstarted]

/-- The log only grows, and whatever is launched has the arguments `P` says. -/
structure Extends (P : List String → Prop) (s s' : World) : Prop where
  booted : s'.booted = s.booted
  log : ∃ new, s'.log = new ++ s.log ∧ ∀ args, .launched args ∈ new → P args

section Extends

variable {P : List String → Prop} {s1 : World}

theorem Extends.of_eq (hb : s'.booted = s.booted) (hl : s'.log = s.log) : Extends P s s' :=
  ⟨hb, [], hl, nofun⟩

theorem Extends.note {n : Note} (hx : Extends P s s1) (hb : s'.booted = s1.booted)
    (hl : s'.log = n :: s1.log) (hn : ∀ args, n = .launched args → P args) : Extends P s s' := by
  obtain ⟨new, hnew, hall⟩ := hx.log
  refine ⟨hb.trans hx.booted, n :: new, by rw [hl, hnew]; rfl, fun args hm => ?_⟩
  rcases List.mem_cons.mp hm with he | hm
  · exact hn args he.symm
  · exact hall args hm

theorem Extends.fail (hx : Extends P s s1) : Extends P s s1.fail :=
  hx.note rfl rfl nofun

theorem Extends.up (hx : Extends P s s1) : Extends P s (s1.up generation) :=
  ⟨hx.booted, hx.log⟩

theorem Extends.attached {result : Except String Nat} (hx : Extends P s s1) :
    Extends P s (s1.attached resume result) := by
  unfold World.attached
  split
  · cases resume with
    | true => exact hx.up
    | false =>
      have hmark : Extends P s s1.markRunning := hx.note rfl rfl nofun
      exact hmark.up
  · exact hx.up

/-- An agent is launched with the arguments of its session. -/
theorem Extends.start (hx : Extends P s s1)
    (hp : ∀ args, sessionArgs s1.row resume = .ok args → P args) :
    Extends P s (s1.start by_ resume a) := by
  have hstart : Extends P s (s1.note (.start by_ resume)) := hx.note rfl rfl nofun
  unfold World.start
  dsimp only
  split
  · exact hstart.fail
  · split
    · exact hstart.up
    · split
      · exact hstart.fail
      · exact hstart.fail
      · rename_i args _ hargs
        split
        · exact hstart.fail
        · have hlaunched : Extends P s ((s1.note (.start by_ resume)).note (.launched args)) := by
            refine hstart.note rfl rfl fun args' he => ?_
            obtain rfl := Note.launched.inj he
            exact hp args hargs
          exact hlaunched.attached

theorem Extends.died (hx : Extends P s s1) : Extends P s (s1.died generation held unread now) := by
  unfold World.died
  split
  · exact hx
  · split_ifs
    · exact hx
    · have hdeath : Extends P s (s1.note .death) := hx.note rfl rfl nofun
      dsimp only
      split
      · exact hdeath.fail
      · split
        · exact hdeath.note rfl rfl nofun
        · exact hdeath.note rfl rfl nofun

end Extends

/-- Before the boot there is nothing to tell. -/
structure Booting (s : World) : Prop extends Disciplined s where
  fresh : s.booted = false → s.log = []

/-- The boot finds an instance of which nothing was logged. -/
theorem disciplined_boot {running : Bool} (hd : Disciplined s) (hl : s.log = []) :
    Disciplined (s.boot running a) := by
  have hno : Note.recorded ∈ s.log → False := by
    rw [hl]
    exact nofun
  have hs : Sound { s with booted := true } := ⟨hd.lawful, hd.counted, hd.budget, hd.recorded⟩
  have hrested : Rested s.log := by
    rw [hl]
    trivial
  have hunfailed : Unfailed s.log := by
    rw [hl]
    trivial
  unfold World.boot
  dsimp only
  split_ifs
  · exact ⟨hs, hd.rested, hd.unfailed, hd.granted, hd.running⟩
  · unfold World.reconnect
    dsimp only
    split
    · exact hs.fail
    · split
      · exact hs.up hrested hunfailed fun hr => (hno hr).elim
      · split
        · exact hs.fail
        · split
          · exact hs.fail
          · exact hs.attached hrested hunfailed (fun hr => (hno hr).elim)
              fun _ => ⟨hrested, hunfailed⟩
  · exact Due.start ⟨hs, hunfailed, nofun, fun hr => (hno hr).elim⟩

/-- Once a session is recorded, a step launches what resumes it. -/
def Resumes (s : World) (args : List String) : Prop :=
  .recorded ∈ s.log → sessionArgs s.row true = .ok args

theorem extends_restart (hd : Disciplined s) :
    Extends (Resumes s) s (s.restart generation held stop unread a) := by
  have same : Extends (Resumes s) s s := .of_eq rfl rfl
  unfold World.restart
  by_cases hno : (!s.waiting generation || held) = true
  · rw [if_pos hno]
    exact same
  · rw [if_neg hno]
    split
    · exact same.fail
    · by_cases hu : unread = true
      · rw [if_pos hu]
        exact same
      · rw [if_neg hu]
        simp only [Bool.or_eq_true, Bool.not_eq_true', not_or, Bool.not_eq_false] at hno
        refine same.start fun args hargs hr => ?_
        rw [decide_eq_true (hd.running hr (waits_of_waiting hno.1).2)] at hargs
        exact hargs

theorem extends_retry (hd : Disciplined s) :
    Extends (Resumes s) s (s.retry held stop unread a) := by
  have same : Extends (Resumes s) s s := .of_eq rfl rfl
  unfold World.retry
  by_cases hheld : held = true
  · rw [if_pos hheld]
    exact same
  · rw [if_neg hheld]
    split
    · exact same.fail
    · by_cases hu : unread = true
      · rw [if_pos hu]
        exact same
      · rw [if_neg hu]
        refine Extends.start (same.note rfl rfl nofun) fun args hargs hr => ?_
        change sessionArgs s.row s.row.sessionStarted = .ok args at hargs
        rw [hd.recorded hr] at hargs
        exact hargs

theorem extends_step (hb : Booting s) (hs : s.next e = some s') (hbt : s.booted = true) :
    Extends (Resumes s) s s' := by
  have same : Extends (Resumes s) s s := .of_eq rfl rfl
  cases e with
  | boot running a =>
    simp only [World.next, hbt, if_true] at hs
    cases hs
  | died cause generation held unread now =>
    simp only [World.next] at hs
    split_ifs at hs
    obtain rfl := Option.some.inj hs
    exact Extends.died (.of_eq rfl rfl)
  | launchBindingRejected generation =>
    simp only [World.next, hbt, if_true] at hs
    obtain rfl := Option.some.inj hs
    unfold World.launchBindingRejected
    split
    · exact same
    · exact same.fail
  | restart generation held stop unread a =>
    simp only [World.next, hbt, if_true] at hs
    obtain rfl := Option.some.inj hs
    exact extends_restart hb.toDisciplined
  | retry held stop unread a =>
    simp only [World.next, hbt, if_true] at hs
    obtain rfl := Option.some.inj hs
    exact extends_retry hb.toDisciplined
  | session id =>
    obtain rfl := Option.some.inj hs
    exact .of_eq rfl rfl

theorem Disciplined.later (hd : Disciplined s) (hle : s.clock ≤ now) :
    Disciplined { s with clock := now } :=
  ⟨⟨hd.lawful, hd.counted, hd.budget.later hle, hd.recorded⟩, hd.rested, hd.unfailed, hd.granted,
    hd.running⟩

theorem disciplined_step (hb : Booting s) (hs : s.next e = some s') : Disciplined s' := by
  have hd := hb.toDisciplined
  cases e with
  | boot running a =>
    simp only [World.next] at hs
    split_ifs at hs with hbt
    obtain rfl := Option.some.inj hs
    exact disciplined_boot hd (hb.fresh (Bool.not_eq_true _ ▸ hbt))
  | died cause generation held unread now =>
    simp only [World.next] at hs
    split_ifs at hs with hnow
    obtain rfl := Option.some.inj hs
    rw [Bool.and_eq_true, decide_eq_true_eq] at hnow
    exact (hd.later hnow.2).died
  | launchBindingRejected generation =>
    simp only [World.next] at hs
    split_ifs at hs
    obtain rfl := Option.some.inj hs
    exact hd.launchBindingRejected
  | restart generation held stop unread a =>
    simp only [World.next] at hs
    split_ifs at hs
    obtain rfl := Option.some.inj hs
    exact hd.restart
  | retry held stop unread a =>
    simp only [World.next] at hs
    split_ifs at hs
    obtain rfl := Option.some.inj hs
    exact hd.retry
  | session id =>
    obtain rfl := Option.some.inj hs
    exact ⟨⟨hd.lawful, hd.counted, hd.budget, hd.recorded⟩, hd.rested, hd.unfailed, hd.granted,
      hd.running⟩

theorem booted_boot {running : Bool} : (s.boot running a).booted = true := by
  have same : Extends (fun _ => True) { s with booted := true } { s with booted := true } :=
    .of_eq rfl rfl
  unfold World.boot
  dsimp only
  split_ifs
  · rfl
  · unfold World.reconnect
    dsimp only
    split
    · exact same.fail.booted
    · split
      · rfl
      · split
        · exact same.fail.booted
        · split
          · exact same.fail.booted
          · exact same.attached.booted
  · exact (same.start fun _ _ => trivial).booted

theorem booted_of_event (hs : s.next e = some s') (hno : s.booted = false) :
    s'.booted = true ∨ s'.booted = false ∧ s'.log = s.log := by
  cases e with
  | boot running a =>
    simp only [World.next] at hs
    split_ifs at hs
    obtain rfl := Option.some.inj hs
    exact Or.inl booted_boot
  | session id =>
    obtain rfl := Option.some.inj hs
    exact Or.inr ⟨hno, rfl⟩
  | died | launchBindingRejected | restart | retry =>
    simp [World.next, hno] at hs

theorem booting_step (hb : Booting s) (hs : s.next e = some s') : Booting s' := by
  refine ⟨disciplined_step hb hs, fun hno => ?_⟩
  cases hbt : s.booted with
  | true =>
    have := (extends_step hb hs hbt).booted
    rw [hno, hbt] at this
    cases this
  | false =>
    rcases booted_of_event hs hbt with h | ⟨-, hl⟩
    · rw [hno] at h
      cases h
    · rw [hl]
      exact hb.fresh hbt

theorem booting_of_run (hr : supervisor.Run h s) : Booting s := by
  refine hr.reachable.invariant (P := Booting) (fun s hi => ?_) fun s e s' o hb hs => ?_
  · exact ⟨disciplined_init hi, fun _ => hi.2.2⟩
  · exact booting_step (e := e) hb hs

/-! What the log says, note by note. -/

theorem Lawful.allowed {n : Note} {l1 l2 : List Note} (hl : Lawful (l1 ++ n :: l2)) :
    Allowed n l2 := by
  induction l1 with
  | nil => exact hl.1
  | cons m l1 ih => exact ih hl.2

theorem Rested.start_mem {l2 l3 : List Note} (hr : Rested (l2 ++ .death :: l3)) :
    ∃ n ∈ l2, n.isStart = true := by
  induction l2 with
  | nil => exact hr.elim
  | cons n l2 ih =>
    cases n with
    | start by_ resume => exact ⟨_, List.mem_cons_self, rfl⟩
    | death => exact hr.elim
    | _ =>
      obtain ⟨m, hm, hstart⟩ := ih hr
      exact ⟨m, List.mem_cons_of_mem _ hm, hstart⟩

theorem Unfailed.retried_mem {l2 l3 : List Note} (hu : Unfailed (l2 ++ .failed :: l3)) :
    .retried ∈ l2 := by
  induction l2 with
  | nil => exact hu.elim
  | cons n l2 ih =>
    cases n with
    | retried => exact List.mem_cons_self
    | failed => exact hu.elim
    | _ => exact List.mem_cons_of_mem _ (ih hu)

theorem current_eq_none (hno : ∀ w, s.watch = some w → w.generation ≠ generation ∨ w.state ≠ .up) :
    s.current generation = none := by
  cases hc : s.current generation with
  | none => rfl
  | some w =>
    obtain ⟨hw, hcond⟩ := Option.filter_eq_some_iff.mp hc
    simp only [Bool.and_eq_true, decide_eq_true_eq] at hcond
    rcases hno w hw with hg | hu
    · exact absurd hcond.1 hg
    · exact absurd hcond.2 hu

theorem waiting_eq_false
    (hno : ∀ w, s.watch = some w → w.generation ≠ generation ∨ ∀ n, w.state ≠ .restarting n) :
    s.waiting generation = false := by
  unfold World.waiting
  cases hw : s.watch with
  | none => rfl
  | some w =>
    rw [Option.any_some]
    rcases hno w hw with hg | hn
    · simp [hg]
    · cases hst : w.state with
      | restarting n => exact absurd hst (hn n)
      | _ => simp

/-- Restarts are disciplined, whatever happens and in whatever order. -/
theorem restart_discipline (hr : supervisor.Run h s) :
    -- Between two deaths that were accepted the instance was started.
    (∀ l1 l2 l3, s.log = l1 ++ .death :: (l2 ++ .death :: l3) → ∃ n ∈ l2, n.isStart = true) ∧
    -- Events of another generation, or in another state, change nothing.
    (∀ t ∈ h, ∀ generation,
      ((∀ w, t.before.watch = some w → w.generation ≠ generation ∨ w.state ≠ .up) →
        (∀ cause held unread now, t.event = .died cause generation held unread now →
          t.after = { t.before with clock := now }) ∧
        (t.event = .launchBindingRejected generation → t.after = t.before)) ∧
      ((∀ w, t.before.watch = some w →
          w.generation ≠ generation ∨ ∀ n, w.state ≠ .restarting n) →
        ∀ held stop unread a, t.event = .restart generation held stop unread a →
          t.after = t.before)) ∧
    -- The budget grants every automatic start, and three in ten minutes.
    s.log.countP Note.isAutomatic ≤ s.log.countP Note.isGrant ∧
    (∀ start, (grants s.log).countP (Window.within restartWindowMs start) ≤ maxRestarts) ∧
    -- Giving up is final until a retry.
    (∀ l1 l2 l3 resume, s.log = l1 ++ .start .automatic resume :: (l2 ++ .failed :: l3) →
      .retried ∈ l2) ∧
    -- A session that was recorded is resumed.
    (∀ l1 l2 by_ resume, s.log = l1 ++ .start by_ resume :: l2 → .recorded ∈ l2 →
      resume = true) ∧
    ∀ t ∈ h, .recorded ∈ t.before.log → ∃ new, t.after.log = new ++ t.before.log ∧
      ∀ args, .launched args ∈ new → sessionArgs t.before.row true = .ok args := by
  have hb := booting_of_run hr
  have hl := hb.lawful
  refine ⟨fun l1 l2 l3 he => ?_, fun t ht generation => ⟨fun hno => ⟨?_, fun he => ?_⟩, ?_⟩,
    hb.counted, hb.budget.window, fun l1 l2 l3 resume he => ?_, fun l1 l2 by_ resume he hrec => ?_,
    fun t ht hrec => ?_⟩
  · rw [he] at hl
    exact Rested.start_mem hl.allowed
  · intro cause held unread now he
    have hs := (hr.of_mem t ht).2
    simp only [supervisor, he, World.next] at hs
    split_ifs at hs
    rw [← Option.some.inj hs]
    unfold World.died
    rw [current_eq_none (s := { t.before with clock := now }) hno]
  · have hs := (hr.of_mem t ht).2
    simp only [supervisor, he, World.next] at hs
    split_ifs at hs
    rw [← Option.some.inj hs]
    unfold World.launchBindingRejected
    rw [current_eq_none hno]
  · intro hno held stop unread a he
    have hs := (hr.of_mem t ht).2
    simp only [supervisor, he, World.next] at hs
    split_ifs at hs
    rw [← Option.some.inj hs]
    unfold World.restart
    rw [waiting_eq_false hno]
    rfl
  · rw [he] at hl
    exact Unfailed.retried_mem ((Lawful.allowed hl).1 rfl)
  · rw [he] at hl
    exact (Lawful.allowed hl).2 hrec
  · obtain ⟨⟨h0, hr0⟩, hs⟩ := hr.of_mem t ht
    have hb0 := booting_of_run hr0
    have hbt : t.before.booted = true := by
      cases hbt : t.before.booted with
      | true => rfl
      | false =>
        rw [hb0.fresh hbt] at hrec
        cases hrec
    obtain ⟨new, hnew, hall⟩ := (extends_step hb0 hs hbt).log
    exact ⟨new, hnew, fun args ha => hall args ha hrec⟩

/-- An agent that dies at once is restarted three times, and given up at its fourth death. -/
theorem restart_discipline_three :
    let answers (generation : Nat) : Answers := ⟨.ok (), .ok (), .ok (), .ok (), .ok generation⟩
    let row : Instance := ⟨"dev", .claude, "/bin/claude", [], "/tmp", some "s-1", .new, false, none,
      false, "push"⟩
    let round (generation : Nat) : List Event := [
      .died .agentExited generation false false generation,
      .restart generation false (.ok ()) false (answers (generation + 1))]
    let played := Machine.play (fun s e => (World.next s e).map (·, ())) []
      ⟨row, none, false, 0, []⟩
      (.boot false (answers 1) :: round 1 ++ round 2 ++ round 3 ++ round 4)
    played.2.log.head? = some .failed ∧ played.2.log.countP Note.isAutomatic = 3 ∧
      ∀ start, (grants played.2.log).countP (Window.within restartWindowMs start) ≤
        maxRestarts := by
  intro answers row round played
  have hr : supervisor.Run played.1 played.2 :=
    .play (fun _ _ _ _ => Machine.step_of_silent) (.start ⟨rfl, rfl, rfl⟩)
  exact ⟨by decide +kernel, by decide +kernel, (restart_discipline hr).2.2.2.1⟩

end Agend.Supervisor
