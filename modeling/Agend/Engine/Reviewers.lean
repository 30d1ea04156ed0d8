import Agend.Engine.Redispatch
import Agend.Pipeline.Authority

/-! Who is asked for a review: somebody else of the role and team who has not answered it, and no
answered or past review is left bound, unless a crash or a failure comes before its release. -/
namespace Agend.Engine

open Agend.Library Agend.Pipeline Agend.Runtime

variable {w : World} {m : NewMessage} {r : TaskRow} {v : ValidatedWorkflow} {st : PipelineState}
  {review : Bool} {i : String}
  {h : List (Transition (Process interface) (Signal interface Request) (Trail interface))}
  {p : Process interface}
  {t : Transition (Process interface) (Signal interface Request) (Trail interface)}

/-- Promised for the release of obsolete review bindings: no start while one belongs to an open task
of a team without repository, or without git; while one waits, the calls that release it or close
its task do not fail; and no Retry of a closed task whose stored pipeline waits for a role
review. -/
def promptly : Terms := ⟨False, True⟩

/-- A message asks for what its task waits for, and nobody who has answered it. -/
def Unanswered (w : World) (m : NewMessage) : Prop :=
  ∃ r v st review i, Dispatched w m r v st review i ∧ i ∉ st.approvalReviewers

/-- Whom each dispatch of a run asks. -/
def AsksUnanswered
    (h : List (Transition (Process interface) (Signal interface Request) (Trail interface))) :
    Prop :=
  ∀ t ∈ h, ∀ x, dispatched t = some x → Unanswered t.before.world x.1

/-- Between requests no open task has a binding of an answered or past review. -/
def Released (p : Process interface) : Prop := p.phase = .idle → ∀ t, ¬ Waiting p.world t

theorem Entrusted.reviewers_eq_nil (h : Entrusted w r st i false) (hl : st.Live) :
    st.approvalReviewers = [] := by
  cases h with
  | work hs =>
    obtain ⟨stage, hstage, hw⟩ := Option.map_eq_some_iff.mp hs
    refine hl.reviewers_eq_nil hstage ?_
    rw [WorkflowStage.isKind, hw]
    rfl

theorem Dealt.unanswered (h : Dealt promptly w m) : Unanswered w m := by
  obtain ⟨r, v, st, review, i, hd, -, hasked⟩ := h
  refine ⟨r, v, st, review, i, hd, ?_⟩
  cases review with
  | true => exact hasked trivial rfl
  | false => simp [hd.entrusted.reviewers_eq_nil hd.live]

/-- A reviewer is never waited for who has answered. -/
theorem reviews_ask_unanswered (hr : (server.machine Pristine).Run h p)
    (hk : ∀ t ∈ h, promptly.Kept t) :
    AsksUnanswered h ∧ Released p ∧ ∀ t ∈ h, Released t.before := by
  obtain ⟨hc, hall⟩ := (keeps promptly).run (fun w hw => Pristine.orderly hw) hr hk
  refine ⟨fun t ht x hx => ?_, fun hidle => hc.idle hidle trivial,
    fun t ht hidle => (hall t ht).1.idle hidle trivial⟩
  obtain ⟨b, e, p', o⟩ := t
  obtain ⟨m, c⟩ := x
  obtain ⟨-, hs⟩ := hr.of_mem _ ht
  obtain ⟨a, starting, next, rfl, hphase, -⟩ := claim_of_dispatched hs hx
  have hd := (hall _ ht).2
  unfold Server.Dutiful at hd
  rw [hphase] at hd
  exact (hd.2 m rfl).unanswered

/-! Two reviewers of a team without repository. -/

def twoReviews : Workflow where
  id := "two"
  version := 1
  requires := []
  allowUnreviewed := false
  stages := [.new "a" (.work "dev" "" .result), .new "b" (.approval (.role "reviewer") 2 false)]

def panel : World :=
  { World.empty "/d" with
    teams := Table.empty.put ⟨"core", none, "two"⟩
    agents := ((Table.empty.put ⟨"dev", .claude, "core", "dev", "inbox"⟩).put
      ⟨"r1", .claude, "core", "reviewer", "inbox"⟩).put
      ⟨"r2", .claude, "core", "reviewer", "inbox"⟩
    workflows := Table.empty.put twoReviews }

theorem pristine_panel : Pristine panel := ⟨rfl, rfl, rfl, by decide +kernel⟩

/-- The work of the task is done, and the first reviewer is asked. -/
def firstReview : List (Signal interface Request) :=
  started 18 ++ served (.createTask "x" "dev" "core" none) 23 { yes := true } ++
    served (.result "dev" "t-1" "ok" (some "out") (some ⟨"a", 1⟩)) 21 { yes := true }

/-- The first reviewer approves, and the second one is asked. -/
def bothReviews : List (Signal interface Request) :=
  firstReview ++ served (.review "r1" "t-1" (some ⟨"b", 1⟩) none) 16 { yes := true } ++
    served .wake 17 { yes := true }

/-- One start before the first task, no Retry, and every call is answered well. -/
def smooth
    (t : Transition (Process interface) (Signal interface Request) (Trail interface)) : Bool :=
  match t.event with
  | .start => t.before.world.tasks.rows.isEmpty
  | .serve (.retry _) => false
  | .answer a => a.fault.isNone && a.yes
  | _ => true

theorem kept_of_smooth (h : smooth t = true) : promptly.Kept t := by
  obtain ⟨⟨w, phase⟩, e, p', o⟩ := t
  unfold Terms.Kept Server.Meets
  cases e with
  | start =>
    refine ⟨fun hf => hf.elim, fun _ t r team _ hr => ?_⟩
    obtain ⟨hmem, -⟩ := Table.get_eq_some.mp hr
    rw [List.isEmpty_iff.mp h] at hmem
    cases hmem
  | serve request =>
    cases request with
    | retry => cases h
    | block caller task reason =>
      cases reason with
      | none => exact fun hf => hf.elim
      | some => trivial
    | _ => trivial
  | answer a =>
    obtain ⟨hfault, hyes⟩ := Bool.and_eq_true_iff.mp h
    split
    · trivial
    · trivial
    · rename_i heq _
      cases heq
      exact ⟨fun hf => hf.elim, fun _ => ⟨fun _ _ _ => by simpa using hfault, fun _ _ _ => hyes⟩⟩
    · trivial
  | finish => trivial
  | crash => trivial

theorem reviews_ask_unanswered_panel :
    AsksUnanswered (server.play [] ⟨panel, .down⟩ bothReviews).1 ∧
      Released (server.play [] ⟨panel, .down⟩ bothReviews).2 ∧
      ∀ t ∈ (server.play [] ⟨panel, .down⟩ bothReviews).1, Released t.before := by
  have hr : (server.machine Pristine).Run [] ⟨panel, .down⟩ := .start ⟨pristine_panel, rfl⟩
  have hall : (server.play [] ⟨panel, .down⟩ bothReviews).1.all smooth = true := by
    decide +kernel
  exact reviews_ask_unanswered (Server.run_play hr bothReviews) fun t ht =>
    kept_of_smooth (List.all_eq_true.mp hall t ht)

example : ((server.play [] ⟨panel, .down⟩ bothReviews).1.filterMap dispatched).map (·.1.toInstance) =
    ["r2", "r1", "dev"] := by decide +kernel

/-! The daemon crashes when the first approval is stored, before its binding is released, and
starts again: the team has no repository, so the binding stays, and the next review goes to whoever
it names. -/

/-- Whether a message goes to somebody who has answered its task's present review. -/
def answered (w : World) (m : NewMessage) : Bool :=
  ((m.taskId.bind w.row).bind (·.pipeline)).any (·.approvalReviewers.contains m.toInstance)

theorem Dispatched.answered (h : Dispatched w m r v st review i) :
    answered w m = st.approvalReviewers.contains i := by
  obtain ⟨team, -, rfl⟩ := h.composed
  have hrow : w.row r.task.id = some r := h.standing.row
  simp [Engine.answered, dispatchOf, hrow, h.standing.stored, PipelineState.snapshot]

theorem Unanswered.answered (h : Unanswered w m) : answered w m = false := by
  obtain ⟨r, v, st, review, i, hd, hi⟩ := h
  rw [hd.answered]
  simpa using hi

def crashedReview : List (Signal interface Request) :=
  firstReview ++ .serve (.review "r1" "t-1" (some ⟨"b", 1⟩) none) ::
    List.replicate 11 (.answer { yes := true }) ++ [.crash] ++ started 31

theorem answered_reviewer_asked_after_crash :
    (server.machine Pristine).Run (server.play [] ⟨panel, .down⟩ crashedReview).1
        (server.play [] ⟨panel, .down⟩ crashedReview).2 ∧
      ¬ AsksUnanswered (server.play [] ⟨panel, .down⟩ crashedReview).1 := by
  have hr : (server.machine Pristine).Run [] ⟨panel, .down⟩ := .start ⟨pristine_panel, rfl⟩
  refine ⟨Server.run_play hr crashedReview, fun h => ?_⟩
  have hex : (server.play [] ⟨panel, .down⟩ crashedReview).1.any (fun t =>
      (dispatched t).any fun x => Engine.answered t.before.world x.1) = true := by
    decide +kernel
  obtain ⟨t, ht, hx⟩ := List.any_eq_true.mp hex
  obtain ⟨x, hx, hans⟩ := (Option.any_eq_true _ _).mp hx
  rw [(h t ht x hx).answered] at hans
  cases hans

end Agend.Engine
