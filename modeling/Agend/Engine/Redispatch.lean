import Agend.Engine.Booking

/-! Dispatching a ticket again: the message stored under an id is the one composed again, unless the
branch has moved since. -/
namespace Agend.Engine

open Agend.Library Agend.Pipeline Agend.Runtime

variable {k : Terms} {w w' : World} {m : NewMessage} {c : Claim}
  {h : List (Transition (Process interface) (Signal interface Request) (Trail interface))}
  {p p' : Process interface} {e : Signal interface Request} {o : Trail interface}
  {t : Transition (Process interface) (Signal interface Request) (Trail interface)}

/-- The message a step dispatched, and what its claim was answered. -/
def dispatched (t : Transition (Process interface) (Signal interface Request) (Trail interface)) :
    Option (NewMessage × Claim) :=
  match t.output with
  | .called (.claimMessage m) (.ok c) => some (m, c)
  | _ => none

/-- What is dispatched under one id is dispatched in the same words, and never refused. -/
def Repeated
    (h : List (Transition (Process interface) (Signal interface Request) (Trail interface))) :
    Prop :=
  ∀ x ∈ h.filterMap dispatched, x.2 ≠ .different ∧
    ∀ y ∈ h.filterMap dispatched, x.1.id = y.1.id → x.1 = y.1

/-- The environment keeps its promises at a step. -/
def Terms.Kept (k : Terms)
    (t : Transition (Process interface) (Signal interface Request) (Trail interface)) : Prop :=
  Server.Meets (S := server) k.contract k.admits t

/-- Promised for the text of dispatches: no start while the work an active task waits for was
dispatched with another head than the recorded one, nor an unblock or Retry of such a task; no
Retry of a closed task whose stored pipeline waits for work that was dispatched; and no numbers for
names of instances where a work stage is named like a ticket of a role review. -/
def steadily : Terms := ⟨True, False⟩

/-- A step that dispatches a message calls its claim. -/
theorem claim_of_dispatched (hs : server.advance p e = some (p', o))
    (hd : dispatched ⟨p, e, p', o⟩ = some (m, c)) :
    ∃ a starting next, e = .answer a ∧ p.phase = .busy starting (.call (.claimMessage m) next) ∧
      p.world.exec (.claimMessage m) a = (.ok c, p'.world) := by
  obtain ⟨w, phase⟩ := p
  cases e with
  | answer a =>
    cases phase with
    | busy starting rest =>
      cases rest with
      | call call next =>
        obtain ⟨rfl, rfl⟩ := Prod.mk.inj (Option.some.inj hs)
        unfold dispatched at hd
        split at hd
        · rename_i m' c' heq
          obtain ⟨rfl, rfl⟩ := Prod.mk.inj (Option.some.inj hd)
          obtain ⟨rfl, hreply⟩ := Trail.called.inj heq
          have hreply := eq_of_heq hreply
          exact ⟨a, starting, next, rfl, rfl, Prod.ext hreply rfl⟩
        · cases hd
      | done => cases hs
    | down => cases hs
    | idle => cases hs
  | start =>
    cases phase <;> cases hs
    cases hd
  | serve =>
    cases phase <;> cases hs
    cases hd
  | crash =>
    cases hs
    cases hd
  | finish =>
    cases phase with
    | busy starting rest =>
      cases rest <;> cases hs
      cases hd
    | down => cases hs
    | idle => cases hs

/-- A claim that is answered leaves the message it found or stored under the id. -/
theorem exec_claim {a : Answer} (hx : w.exec (.claimMessage m) a = (.ok c, w'))
    (hm : ∀ old, w.messages.get m.id = some old → old = m) :
    c ≠ .different ∧ w'.messages.get m.id = some m := by
  rcases fault_or_perform w (.claimMessage m) a with ⟨reason, -, he⟩ | ⟨-, he⟩
  · rw [he] at hx
    cases hx
  · rw [he] at hx
    change ((.ok (w.claim m a.state).1 : Except Refusal Claim), (w.claim m a.state).2) = _ at hx
    obtain ⟨h1, rfl⟩ := Prod.mk.inj hx
    obtain rfl := Except.ok.inj h1
    unfold World.claim
    cases hold : w.messages.get m.id with
    | some old =>
      obtain rfl := hm old hold
      simp [hold]
    | none =>
      refine ⟨by simp, ?_⟩
      exact Table.get_put_self

/-- Messages are only added. -/
theorem Change.keeps_message (h : Change w w') {id : String}
    (hm : w.messages.get id = some m) : w'.messages.get id = some m := by
  cases h with
  | claimed m' hn =>
    change (w.messages.put m').get id = some m
    rw [Table.get_put]
    split_ifs with hid
    · rw [hid, hn] at hm
      cases hm
    · exact hm
  | _ => exact hm

/-- Every dispatch of a run is stored at its end, as it was composed, and none was refused. -/
theorem stored_of_run (hr : (server.machine Pristine).Run h p) (hk : ∀ t ∈ h, steadily.Kept t) :
    ∀ x ∈ h.filterMap dispatched, x.2 ≠ .different ∧
      p.world.messages.get x.1.id = some x.1 := by
  induction hr with
  | start => simp
  | @snoc h p p' e o hr hs ih =>
    have hk' := fun t ht => hk t (List.mem_cons_of_mem _ ht)
    obtain ⟨-, hall⟩ := (keeps steadily).run (fun w hw => Pristine.orderly hw) (hr.snoc hs) hk
    obtain ⟨-, hd⟩ := hall _ List.mem_cons_self
    have hchange := change_of_dutiful hs hd
    intro x hx
    rw [List.filterMap_cons] at hx
    have older : x ∈ h.filterMap dispatched → x.2 ≠ .different ∧
        p'.world.messages.get x.1.id = some x.1 := by
      intro hx
      obtain ⟨hne, hm⟩ := ih hk' x hx
      exact ⟨hne, hchange.keeps_message hm⟩
    cases hdis : dispatched ⟨p, e, p', o⟩ with
    | none =>
      rw [hdis] at hx
      exact older hx
    | some y =>
      rw [hdis] at hx
      rcases List.mem_cons.mp hx with rfl | hx
      · obtain ⟨m, c⟩ := x
        obtain ⟨a, starting, next, rfl, hphase, hexec⟩ := claim_of_dispatched hs hdis
        have hduty : Terms.contract steadily |>.duty p.world (.claimMessage m) a := by
          unfold Server.Dutiful at hd
          rw [hphase] at hd
          exact hd
        obtain ⟨r, v, st, review, i, -, hold, -⟩ := hduty.2 m rfl
        exact exec_claim hexec (hold trivial)
      · exact older hx

/-- As long as no dispatch is repeated after its branch has moved, a ticket is dispatched again in
the words of its first dispatch. -/
theorem dispatch_repeats (hr : (server.machine Pristine).Run h p)
    (hk : ∀ t ∈ h, steadily.Kept t) : Repeated h := by
  intro x hx
  obtain ⟨hne, hm⟩ := stored_of_run hr hk x hx
  refine ⟨hne, fun y hy hid => ?_⟩
  obtain ⟨-, hm'⟩ := stored_of_run hr hk y hy
  rw [← hid, hm] at hm'
  exact Option.some.inj hm'

/-- The head a dispatch names is read back from its message. -/
theorem namedHead_of_dispatchOf {home i : String} {repo : Option String} {task : Task}
    {st0 st : PipelineState} (h : Alike st0 st)
    (hm : dispatchOf home repo task st0 false i = dispatchOf home repo task st false i) :
    namedHead st0 = namedHead st := by
  have hw : worktreeOf home repo task st0 false i = worktreeOf home repo task st false i := by
    simp only [worktreeOf, Bool.not_false, Bool.true_or]
  have hbody : dispatchBody (worktreeOf home repo task st0 false i) task st0 false =
      dispatchBody (worktreeOf home repo task st false i) task st false :=
    congrArg NewMessage.body hm
  rw [hw] at hbody
  have hproduct := (h.dispatchBody_iff _ task false).mp hbody
  have hp := h.product
  unfold namedHead
  unfold Engine.workProduct at hproduct
  cases h0 : st0.workProduct with
  | none =>
    rw [h0] at hp
    cases h1 : st.workProduct with
    | none => rfl
    | some p => rw [h1] at hp; cases hp
  | some p0 =>
    rw [h0] at hp hproduct
    cases h1 : st.workProduct with
    | none => rw [h1] at hp; cases hp
    | some p =>
      rw [h1] at hp hproduct
      cases p0 <;> cases p <;> cases Option.some.inj hp
      · exact congrArg some (String.append_right_inj _ |>.mp hproduct)
      · rfl
      · rfl

/-- What each task waits for is not dispatched yet, or would be dispatched in the same words. -/
def upToDate (w : World) : Bool :=
  w.tasks.rows.all fun r =>
    match r.pipeline, w.workflows.get (pinned r.task), w.teams.get r.task.teamId with
    | some snapshot, some workflow, some team =>
      let st := PipelineState.ofSnapshot snapshot workflow
      (w.messages.get (dispatchId (ticket st) false "")).all fun m =>
        m = dispatchOf w.home team.repo r.task st false m.toInstance
    | _, _, _ => false

theorem not_behind_of_upToDate (h : upToDate w = true) (t : String) : ¬ Behind w t := by
  rintro ⟨r, v, st, st0, team, i, hs, -, -, -, halike, hne, hteam, hm⟩
  have hr := List.all_eq_true.mp h r (Table.get_eq_some.mp hs.row).1
  have hst : PipelineState.ofSnapshot st.snapshot v.workflow = st := by
    rw [← hs.invariant.workflow]
    rfl
  have hm : w.messages.get (dispatchId (ticket st) false "") =
      some (dispatchOf w.home team.repo r.task st0 false i) := hm
  simp only [hs.stored, hs.workflow, hteam, hst, hm, Option.all_some, decide_eq_true_eq] at hr
  exact hne (namedHead_of_dispatchOf halike hr)

/-- A start, an unblock or another request than a Retry, or an answer, while every dispatch is up to
date and nobody but the developer is there. -/
def undisturbed
    (t : Transition (Process interface) (Signal interface Request) (Trail interface)) : Bool :=
  (t.before.world.agents.rows.all fun a => a.id = "dev") &&
    match t.event with
    | .start | .serve (.block _ _ none) => upToDate t.before.world
    | .serve (.retry _) => false
    | _ => true

theorem unambiguous_of_dev (h : (w.agents.rows.all fun a => a.id = "dev") = true) :
    Unambiguous w := by
  intro _ _ _ _ _ _ _ _ m _ _ _ _ _ _
  rw [Table.get_eq_none]
  intro a ha hid
  have hdev : a.id = "dev" := by simpa using List.all_eq_true.mp h a ha
  have hdigit : 'd' ∈ (toString m).toList := by
    rw [← hid, hdev]
    decide
  rw [Nat.toString_eq_repr, Nat.toList_repr] at hdigit
  have := Nat.isDigit_of_mem_toDigits (by decide) (by decide) hdigit
  simp at this

theorem kept_of_undisturbed (h : undisturbed t = true) : steadily.Kept t := by
  obtain ⟨⟨w, phase⟩, e, p', o⟩ := t
  obtain ⟨hdev, he⟩ := Bool.and_eq_true_iff.mp h
  unfold Terms.Kept Server.Meets
  cases e with
  | start => exact ⟨fun _ t r _ _ => not_behind_of_upToDate he t, fun hf => hf.elim⟩
  | serve request =>
    cases request with
    | block caller task reason =>
      cases reason with
      | none => exact fun _ => not_behind_of_upToDate he task
      | some => trivial
    | retry => cases he
    | _ => trivial
  | answer =>
    split
    · trivial
    · trivial
    · exact ⟨fun _ => unambiguous_of_dev hdev, fun hf => hf.elim⟩
    · trivial
  | finish => trivial
  | crash => trivial

/-- The second stage is dispatched with the head of the first one; the daemon starts again, and the
task is blocked and unblocked. -/
def dispatchedAgain : List (Signal interface Request) :=
  firstDispatch ++ served (.done "dev" "t-1" (some ⟨"a", 1⟩)) 29 { text := "h1" } ++ [.crash] ++
    started 36 ++ served (.block "dev" "t-1" (some "wait")) 5 {} ++
    served (.block "dev" "t-1" none) 17 { yes := true }

/-- Its ticket is dispatched three times, with the same message. -/
theorem dispatch_repeats_workshop :
    let h := (server.play [] ⟨workshop, .down⟩ dispatchedAgain).1
    (h.filterMap dispatched).map (fun x => (x.1.id, x.2)) =
        [("dispatch:t-1/b/1", .existing .sent), ("dispatch:t-1/b/1", .existing .sent),
          ("dispatch:t-1/b/1", .inserted), ("dispatch:t-1/a/1", .inserted)] ∧ Repeated h := by
  intro h
  have hr : (server.machine Pristine).Run [] ⟨workshop, .down⟩ := .start ⟨pristine_workshop, rfl⟩
  have hall : h.all undisturbed = true := by decide +kernel
  refine ⟨by decide +kernel, ?_⟩
  exact dispatch_repeats (Server.run_play hr dispatchedAgain) fun t ht =>
    kept_of_undisturbed (List.all_eq_true.mp hall t ht)

/-- The branch of the first stage moves while the second one works on it, and the daemon starts
again: the second dispatch of the second stage names the new head. -/
def movedBranch : List (Signal interface Request) :=
  firstDispatch ++ served (.done "dev" "t-1" (some ⟨"a", 1⟩)) 29 { text := "h1" } ++
    served (.event "t-1" (.stageTimedOut "b" 1)) 15 { text := "h2" } ++ [.crash] ++ started 51

theorem dispatch_differs_after_move :
    (server.machine Pristine).Run (server.play [] ⟨workshop, .down⟩ movedBranch).1
        (server.play [] ⟨workshop, .down⟩ movedBranch).2 ∧
      ¬ Repeated (server.play [] ⟨workshop, .down⟩ movedBranch).1 ∧
      ((server.play [] ⟨workshop, .down⟩ movedBranch).2.world.tasks.rows.map
        fun r => r.task.status) = [.failed] := by
  have hr : (server.machine Pristine).Run [] ⟨workshop, .down⟩ := .start ⟨pristine_workshop, rfl⟩
  refine ⟨Server.run_play hr movedBranch, ?_, ?_⟩
  · unfold Repeated
    decide +kernel
  · decide +kernel

end Agend.Engine
