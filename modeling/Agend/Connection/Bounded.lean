import Agend.Connection.Retry

/-! A call ends, unless a connection that it opened itself fails again. -/
namespace Agend.Connection

open Library

/-- The sleep that the retry loop has asked for. -/
def Caller.asked (c : Caller) : Option Nat :=
  match c.stage with
  | .asleep _ asked => some asked
  | _ => none

/-- The retry loop is not entered a second time, and a sleep lasts what was asked for. -/
def Caller.CalmAt (c : Caller) : Event → Prop
  | .tried _ _ => True
  | .woke slept => ∀ asked ∈ c.asked, slept = asked
  | .wrote _ complete => c.reopened = true → complete = true
  | .waited _ reply => c.reopened = true → c.call = .request .safe → reply ≠ .ended

instance {c : Caller} : (e : Event) → Decidable (c.CalmAt e)
  | .tried _ _ => inferInstanceAs (Decidable True)
  | .woke _ => inferInstanceAs (Decidable (∀ asked ∈ c.asked, _ = asked))
  | .wrote _ _ => inferInstanceAs (Decidable (_ = _ → _ = _))
  | .waited _ _ => inferInstanceAs (Decidable (_ = _ → _ = _ → _ ≠ _))

/-- Where a call stands after `n` steps. An attempt is the one after `attempts.length` failed ones,
each with a full pause after it unless the window is over. -/
def Caller.Placed (c : Caller) (n : Nat) : Prop :=
  match c.stage with
  | .write =>
    (c.reopened = true → n ≤ 203 ∧ c.attempts.length ≤ 101) ∧
      (c.reopened = false → n = 0 ∧ c.attempts = [] ∧ c.firstFailure = none)
  | .wait =>
    (c.reopened = true → n ≤ 204 ∧ c.attempts.length ≤ 101) ∧
      (c.reopened = false → n = 1 ∧ c.attempts = [] ∧ c.firstFailure = none)
  | .attempt l =>
    c.reopened = false ∧ n ≤ 2 + 2 * c.attempts.length ∧ c.attempts.length ≤ 100 ∧
      (l.started + c.attempts.length * retryEvery ≤ c.now ∨
        l.started + restartRetryWindow ≤ c.now) ∧
      c.now ≤ l.started + restartRetryWindow ∧ ∀ f, c.firstFailure = some f → l.started ≤ f
  | .asleep l asked =>
    c.reopened = false ∧ n + 1 ≤ 2 + 2 * c.attempts.length ∧ 1 ≤ c.attempts.length ∧
      c.attempts.length ≤ 100 ∧ asked = min retryEvery (l.started + restartRetryWindow - c.now) ∧
      l.started + (c.attempts.length - 1) * retryEvery ≤ c.now ∧
      c.now < l.started + restartRetryWindow ∧ ∀ f, c.firstFailure = some f → l.started ≤ f
  | .done _ => n ≤ 205 ∧ c.attempts.length ≤ 101

/-- No attempt was started in the future, nor more than the window after the first failure. -/
structure Caller.Timely (c : Caller) : Prop where
  past : ∀ a ∈ c.attempts, a ≤ c.now
  window : ∀ f, c.firstFailure = some f → ∀ a ∈ c.attempts, a ≤ f + restartRetryWindow

/-- An error that is returned stands for the last thing that failed. -/
def Caller.Honest (c : Caller) : Prop :=
  ∀ e, c.stage = .done (.error e) → ∃ f, c.lastFailure = some f ∧ f.report c.socket = some e

structure Caller.Bounded (c : Caller) (n : Nat) : Prop where
  placed : c.Placed n
  timely : c.Timely

section

variable {c c' : Caller}

theorem Caller.Timely.pass (h : c.Timely) (took : Nat) : (c.pass took).Timely :=
  ⟨fun a ha => Nat.le_add_right_of_le (h.past a ha), h.window⟩

theorem Caller.Timely.enter (h : c.Timely) (stage : Stage) : (c.enter stage).Timely :=
  ⟨h.past, h.window⟩

theorem Caller.Timely.failing (h : c.Timely) (f : Failure) : (c.failing f).Timely := by
  refine ⟨h.past, fun first hfirst a ha => ?_⟩
  cases hold : c.firstFailure with
  | some f' =>
    simp only [Caller.failing, hold, Option.some_or, Option.some.injEq] at hfirst
    exact hfirst ▸ h.window f' hold a ha
  | none =>
    simp only [Caller.failing, hold, Option.none_or, Option.some.injEq] at hfirst
    exact hfirst ▸ Nat.le_add_right_of_le (h.past a ha)

theorem Caller.Timely.retryAttempt (h : c.Timely) (l : Loop) (cause : String) :
    (c.retryAttempt l cause).Timely := by
  rcases c.retryAttempt_spec l cause with ⟨-, heq⟩ | ⟨-, heq⟩
  · exact heq ▸ h.enter _
  · exact heq ▸ h.enter _

theorem Caller.Timely.attempted (h : c.Timely) (l : Loop) (outcome : Attempt) :
    (c.attempted l outcome).Timely := by
  cases outcome with
  | opened =>
    unfold Caller.attempted
    cases c.call with
    | connect => exact ⟨h.past, h.window⟩
    | request => exact ⟨h.past, h.window⟩
  | retry cause => exact (h.failing _).retryAttempt l cause
  | fail e => exact (h.failing _).enter _

theorem Caller.Timely.replied (h : c.Timely) (reply : Reply) : (c.replied reply).Timely := by
  cases reply with
  | answer => exact h.enter _
  | refused code message => exact (h.failing _).enter _
  | other e => exact (h.failing _).enter _
  | ended =>
    simp only [Caller.replied]
    split
    · exact (h.failing _).enter _
    · exact (h.failing _).enter _

/-- The first failure of a call is not before its retry loop. -/
theorem failing_started {started : Nat}
    (h : ∀ first, c.firstFailure = some first → started ≤ first) (hnow : started ≤ c.now)
    (f : Failure) : ∀ first, (c.failing f).firstFailure = some first → started ≤ first := by
  intro first hfirst
  cases hold : c.firstFailure with
  | some old =>
    simp only [Caller.failing, hold, Option.some_or, Option.some.injEq] at hfirst
    exact hfirst ▸ h old hold
  | none =>
    simp only [Caller.failing, hold, Option.none_or, Option.some.injEq] at hfirst
    exact hfirst ▸ hnow

/-- What an attempt leaves behind: a result, a request to send again, or a pause. -/
theorem tried_bounded {n took : Nat} {outcome : Attempt} (h : c.Bounded n)
    (hs : c.step (.tried took outcome) = some c') : c'.Bounded (n + 1) := by
  obtain ⟨hplaced, htimely⟩ := h
  obtain ⟨l, hstage, rfl⟩ := Caller.tried_spec hs
  simp only [Caller.Placed, hstage] at hplaced
  obtain ⟨hfresh, hn, hlen, hpaused, hnow, hstarted⟩ := hplaced
  have hstart : { c with attempts := c.now :: c.attempts }.Timely := by
    refine ⟨fun a ha => ?_, fun f hf a ha => ?_⟩
    · rcases List.mem_cons.mp ha with rfl | ha
      · exact Nat.le_refl _
      · exact htimely.past a ha
    · rcases List.mem_cons.mp ha with rfl | ha
      · have := hstarted f hf
        omega
      · exact htimely.window f hf a ha
  refine ⟨?_, (hstart.pass took).attempted l outcome⟩
  cases outcome with
  | opened =>
    simp only [Caller.attempted, Caller.pass]
    cases c.call with
    | connect =>
      simp only [Caller.Placed, List.length_cons]
      omega
    | request redo =>
      refine ⟨fun _ => ?_, fun hr => by cases hr⟩
      simp only [List.length_cons]
      omega
  | fail e =>
    simp only [Caller.attempted, Caller.enter, Caller.Placed, Caller.failing, Caller.pass,
      List.length_cons]
    omega
  | retry cause =>
    simp only [Caller.attempted]
    rcases Caller.retryAttempt_spec l cause with ⟨-, heq⟩ | ⟨hopen, heq⟩
    · rw [heq]
      simp only [Caller.enter, Caller.Placed, Caller.failing, Caller.pass, List.length_cons]
      omega
    · rw [heq]
      simp only [Caller.failing, Caller.pass] at hopen
      have hlate : l.started ≤ c.now := by omega
      have hfirst := failing_started (c := { c with attempts := c.now :: c.attempts }.pass took)
        hstarted (Nat.le_add_right_of_le hlate) (.attempt cause)
      refine ⟨hfresh, ?_, ?_, ?_, rfl, ?_, hopen, hfirst⟩
      all_goals
        simp only [Caller.enter, Caller.failing, Caller.pass, List.length_cons, Nat.add_sub_cancel]
        unfold restartRetryWindow retryEvery at *
        omega

/-- A pause is a full one, or it ends with the window. -/
theorem woke_bounded {n slept : Nat} (h : c.Bounded n) (hcalm : ∀ asked ∈ c.asked, slept = asked)
    (hs : c.step (.woke slept) = some c') : c'.Bounded (n + 1) := by
  obtain ⟨hplaced, htimely⟩ := h
  obtain ⟨l, asked, hstage, hslept, rfl⟩ := Caller.woke_spec hs
  refine ⟨?_, (htimely.pass slept).enter _⟩
  simp only [Caller.Placed, hstage] at hplaced
  obtain ⟨hfresh, hn, hone, hlen, hasked, hpaused, hopen, hstarted⟩ := hplaced
  have hexact : slept = asked := hcalm asked (by simp [Caller.asked, hstage])
  refine ⟨hfresh, ?_, hlen, ?_, ?_, hstarted⟩
  · simp only [Caller.enter, Caller.pass]
    omega
  all_goals
    simp only [Caller.enter, Caller.pass]
    unfold restartRetryWindow retryEvery at *
    omega

/-- The first failure of a request starts the retry loop in the same instant. -/
theorem openRetrying_placed {n : Nat} (hn : n ≤ 1) (hfresh : c.reopened = false)
    (hnone : c.attempts = []) (hfirst : c.firstFailure = none) (f : Failure) :
    (c.failing f).openRetrying.Placed (n + 1) := by
  simp only [Caller.openRetrying, Caller.enter, Caller.failing, Caller.Placed, hnone, hfirst,
    Option.none_or, Option.some.injEq, List.length_nil]
  refine ⟨hfresh, by omega, by omega, .inl (by omega), Nat.le_add_right _ _, ?_⟩
  rintro first rfl
  exact Nat.le_refl _

theorem wrote_bounded {n took : Nat} {complete : Bool} (h : c.Bounded n)
    (hcalm : c.reopened = true → complete = true)
    (hs : c.step (.wrote took complete) = some c') : c'.Bounded (n + 1) := by
  obtain ⟨hplaced, htimely⟩ := h
  obtain ⟨hstage, ⟨hcomplete, rfl⟩ | ⟨hcut, rfl⟩⟩ := Caller.wrote_spec hs
  · refine ⟨?_, (htimely.pass took).enter _⟩
    simp only [Caller.Placed, hstage] at hplaced
    refine ⟨fun hr => ?_, fun hr => ?_⟩
    · obtain ⟨hn, hlen⟩ := hplaced.1 hr
      exact ⟨by omega, hlen⟩
    · obtain ⟨hn, hnone, hfirst⟩ := hplaced.2 hr
      exact ⟨by omega, hnone, hfirst⟩
  · have hfresh : c.reopened = false := by
      refine Bool.eq_false_iff.mpr fun hr => ?_
      rw [hcalm hr] at hcut
      cases hcut
    simp only [Caller.Placed, hstage] at hplaced
    obtain ⟨hn, hnone, hfirst⟩ := hplaced.2 hfresh
    refine ⟨?_, ((htimely.pass took).failing _).enter _⟩
    exact openRetrying_placed (c := c.pass took) (Nat.le_trans hn.le (Nat.zero_le 1)) hfresh hnone hfirst _

theorem waited_bounded {n took : Nat} {reply : Reply} (h : c.Bounded n)
    (hcalm : c.reopened = true → c.call = .request .safe → reply ≠ .ended)
    (hs : c.step (.waited took reply) = some c') : c'.Bounded (n + 1) := by
  obtain ⟨hplaced, htimely⟩ := h
  obtain ⟨hstage, rfl⟩ := Caller.waited_spec hs
  refine ⟨?_, (htimely.pass took).replied reply⟩
  simp only [Caller.Placed, hstage] at hplaced
  have hdone : n + 1 ≤ 205 ∧ c.attempts.length ≤ 101 := by
    cases hr : c.reopened with
    | true =>
      have := hplaced.1 hr
      omega
    | false =>
      obtain ⟨hn, hnone, -⟩ := hplaced.2 hr
      simp only [hnone, List.length_nil]
      omega
  cases reply with
  | answer => exact hdone
  | refused code message => exact hdone
  | other e => exact hdone
  | ended =>
    simp only [Caller.replied]
    split
    case isFalse => exact hdone
    case isTrue hsafe =>
      have hfresh : c.reopened = false :=
        Bool.eq_false_iff.mpr fun hr => hcalm hr hsafe rfl
      obtain ⟨hn, hnone, hfirst⟩ := hplaced.2 hfresh
      exact openRetrying_placed (c := c.pass took) hn.le hfresh hnone hfirst _

theorem step_bounded {n : Nat} {e : Event} (h : c.Bounded n) (hcalm : c.CalmAt e)
    (hs : c.step e = some c') : c'.Bounded (n + 1) := by
  cases e with
  | tried took outcome => exact tried_bounded h hs
  | woke slept => exact woke_bounded h hcalm hs
  | wrote took complete => exact wrote_bounded h hcalm hs
  | waited took reply => exact waited_bounded h hcalm hs

theorem Caller.Placed.bound {n : Nat} (h : c.Placed n) :
    n ≤ 205 ∧ c.attempts.length ≤ 101 := by
  unfold Caller.Placed at h
  split at h
  case h_1 | h_2 =>
    cases hr : c.reopened with
    | true =>
      have := h.1 hr
      omega
    | false =>
      obtain ⟨hn, hnone, -⟩ := h.2 hr
      simp only [hnone, List.length_nil]
      omega
  all_goals omega

/-- A call that is not over is in one of the blocking calls, whatever comes of it. -/
theorem done_of_stuck (h : ∀ e, c.step e = none) : ∃ r, c.stage = .done r := by
  cases hstage : c.stage with
  | attempt l => simpa [Caller.step, hstage] using h (.tried 0 .opened)
  | asleep l asked => simpa [Caller.step, hstage] using h (.woke asked)
  | write => simpa [Caller.step, hstage] using h (.wrote 0 true)
  | wait => simpa [Caller.step, hstage] using h (.waited 0 .answer)
  | done r => exact ⟨r, rfl⟩

theorem attempted_honest (l : Loop) (outcome : Attempt) : (c.attempted l outcome).Honest := by
  intro err hdone
  cases outcome with
  | opened =>
    simp only [Caller.attempted] at hdone
    split at hdone <;> cases hdone
  | fail e =>
    cases hdone
    exact ⟨.fatal _, rfl, rfl⟩
  | retry cause =>
    simp only [Caller.attempted, Caller.retryAttempt] at hdone ⊢
    split at hdone
    case isTrue hleft =>
      cases hdone
      rw [if_pos hleft]
      exact ⟨.attempt cause, rfl, rfl⟩
    case isFalse => cases hdone

theorem replied_honest (reply : Reply) : (c.replied reply).Honest := by
  intro err hdone
  cases reply with
  | answer => cases hdone
  | refused code message =>
    cases hdone
    exact ⟨.reply _, rfl, rfl⟩
  | other e =>
    cases hdone
    exact ⟨.reply _, rfl, rfl⟩
  | ended =>
    simp only [Caller.replied] at hdone ⊢
    split at hdone
    case isTrue => cases hdone
    case isFalse hunsafe =>
      cases hdone
      rw [if_neg hunsafe]
      exact ⟨.ended, rfl, rfl⟩

theorem step_honest {e : Event} (hs : c.step e = some c') : c'.Honest := by
  cases e with
  | tried took outcome =>
    obtain ⟨l, -, rfl⟩ := Caller.tried_spec hs
    exact attempted_honest l outcome
  | woke slept =>
    obtain ⟨l, asked, -, -, rfl⟩ := Caller.woke_spec hs
    intro err hdone
    cases hdone
  | wrote took complete =>
    obtain ⟨-, ⟨-, rfl⟩ | ⟨-, rfl⟩⟩ := Caller.wrote_spec hs
    all_goals
      intro err hdone
      cases hdone
  | waited took reply =>
    obtain ⟨-, rfl⟩ := Caller.waited_spec hs
    exact replied_honest reply

end

theorem begin_bounded (socket : String) (now retried : Nat) (call : Call) :
    (Caller.begin_ socket now retried call).Bounded 0 ∧
      (Caller.begin_ socket now retried call).Honest := by
  cases call with
  | connect =>
    refine ⟨⟨?_, fun a ha => ?_, fun f hf => ?_⟩, fun err hdone => ?_⟩
    · exact ⟨rfl, Nat.zero_le _, Nat.zero_le _, .inl (by simp [Caller.begin_]),
        Nat.le_add_right _ _, fun f hf => by cases hf⟩
    · cases ha
    · cases hf
    · cases hdone
  | request redo =>
    refine ⟨⟨?_, fun a ha => ?_, fun f hf => ?_⟩, fun err hdone => ?_⟩
    · exact ⟨fun hr => Bool.noConfusion hr, fun _ => ⟨rfl, rfl, rfl⟩⟩
    · cases ha
    · cases hf
    · cases hdone

/-- As long as no connection that the call opened fails again and a sleep lasts what was asked for,
the call is over after a bounded number of attempts, none of them started more than the window
after the first failure, and an error that it returns is the last failure. -/
theorem call_bounded {h : List (Transition Caller Event Unit)} {c : Caller} (hr : calls.Run h c)
    (hcalm : ∀ t ∈ h, t.before.CalmAt t.event) :
    h.length ≤ 205 ∧ c.attempts.length ≤ 101 ∧
      (∀ f, c.firstFailure = some f → ∀ a ∈ c.attempts, a ≤ f + restartRetryWindow) ∧
      c.Honest ∧ ((∀ e, c.step e = none) → ∃ r, c.stage = .done r) := by
  have hall : c.Bounded h.length ∧ c.Honest := by
    induction hr with
    | start hs =>
      obtain ⟨socket, now, retried, call, rfl⟩ := hs
      exact begin_bounded socket now retried call
    | snoc hr hs ih =>
      have hold := ih fun t ht => hcalm t (List.mem_cons_of_mem _ ht)
      exact ⟨step_bounded hold.1 (hcalm _ List.mem_cons_self) hs, step_honest hs⟩
  obtain ⟨⟨hplaced, htimely⟩, hhonest⟩ := hall
  obtain ⟨hsteps, hattempts⟩ := hplaced.bound
  exact ⟨hsteps, hattempts, htimely.window, hhonest, done_of_stuck⟩

/-- A lost connection, one refused attempt, and the request sent again. -/
theorem call_bounded_resent :
    let played := Machine.play (fun c e => (Caller.step c e).map (·, ())) []
      (Caller.begin_ "s" 0 0 (.request .safe))
      [.wrote 0 true, .waited 7 .ended, .tried 0 (.retry "refused"), .woke retryEvery,
        .tried 5 .opened, .wrote 0 true, .waited 3 .answer]
    played.1.length = 7 ∧ played.2.attempts = [7 + retryEvery, 7] ∧
      played.2.attempts.length ≤ 101 ∧
        ∀ f, played.2.firstFailure = some f → ∀ a ∈ played.2.attempts,
          a ≤ f + restartRetryWindow := by
  intro played
  have hr : calls.Run played.1 played.2 :=
    .play (fun _ _ _ _ => Machine.step_of_silent) (.start ⟨"s", 0, 0, .request .safe, rfl⟩)
  have hcalm : ∀ t ∈ played.1, t.before.CalmAt t.event := by decide +kernel
  have hall := call_bounded hr hcalm
  exact ⟨by decide +kernel, by decide +kernel, hall.2.1, hall.2.2.1⟩

/-- One connection more that says hello and then fails the write. -/
def reopening : List Event := [.wrote 0 false, .tried 1000000000 .opened]

/-- Where every connection says hello after a second and fails the write, the call goes on. -/
theorem request_lasts (redo : Redo) (n : Nat) : ∃ h c, calls.Run h c ∧
    h.reverse.map (·.event) = (List.replicate n reopening).flatten ∧
    c.call = .request redo ∧ c.stage = .write ∧ c.attempts.length = n ∧
    (0 < n → c.firstFailure = some 0 ∧ (n - 1) * 1000000000 ∈ c.attempts) := by
  suffices hmore : ∃ h c, calls.Run h c ∧
      h.reverse.map (·.event) = (List.replicate n reopening).flatten ∧
      c.call = .request redo ∧ c.stage = .write ∧ c.attempts.length = n ∧
      (0 < n → c.firstFailure = some 0 ∧ (n - 1) * 1000000000 ∈ c.attempts) ∧
      c.now = n * 1000000000 ∧ (n = 0 → c.firstFailure = none) by
    obtain ⟨h, c, hr, hevents, hcall, hstage, hlen, hlate, -⟩ := hmore
    exact ⟨h, c, hr, hevents, hcall, hstage, hlen, hlate⟩
  induction n with
  | zero =>
    refine ⟨[], Caller.begin_ "s" 0 0 (.request redo), .start ⟨"s", 0, 0, _, rfl⟩, rfl, rfl, rfl,
      rfl, fun h => absurd h (Nat.lt_irrefl 0), rfl, fun _ => rfl⟩
  | succ n ih =>
    obtain ⟨h, c, hr, hevents, hcall, hstage, hlen, hlate, hnow, hnone⟩ := ih
    have hwrite : calls.step c (.wrote 0 false) (((c.pass 0).failing .write).openRetrying) () := by
      simp [calls, Caller.step, hstage]
    have hopen : calls.step (((c.pass 0).failing .write).openRetrying) (.tried 1000000000 .opened)
        { (((c.pass 0).failing .write).openRetrying) with
          stage := .write
          now := c.now + 1000000000
          retried := c.retried + 1000000000
          attempts := c.now :: c.attempts
          reopened := true } () := by
      simp [calls, Caller.step, Caller.openRetrying, Caller.enter, Caller.failing, Caller.pass,
        Caller.attempted, hcall]
    refine ⟨_, _, (hr.snoc hwrite).snoc hopen, ?_, hcall, rfl, ?_, fun _ => ⟨?_, ?_⟩, ?_, ?_⟩
    · rw [List.replicate_succ', List.flatten_append, ← hevents]
      simp [reopening]
    · simp [hlen]
    · cases n with
      | zero => simp [Caller.openRetrying, Caller.enter, Caller.failing, Caller.pass, hnone, hnow]
      | succ n =>
        simp [Caller.openRetrying, Caller.enter, Caller.failing, Caller.pass,
          (hlate (Nat.succ_pos n)).1]
    · simp [hnow]
    · simp only [hnow]
      omega
    · intro hzero
      cases hzero

/-- The call goes on for ever, with attempts long after the window. -/
theorem request_never_ends :
    (∀ redo n, ∃ h c, calls.Run h c ∧
      h.reverse.map (·.event) = (List.replicate n reopening).flatten ∧
      c.call = .request redo ∧ c.stage = .write ∧ c.attempts.length = n) ∧
    ¬ ∀ h c, calls.Run h c → ∀ first, c.firstFailure = some first →
      ∀ started ∈ c.attempts, started ≤ first + restartRetryWindow := by
  constructor
  · intro redo n
    obtain ⟨h, c, hr, hevents, hcall, hstage, hlen, -⟩ := request_lasts redo n
    exact ⟨h, c, hr, hevents, hcall, hstage, hlen⟩
  · intro hwindow
    obtain ⟨h, c, hr, -, -, -, -, hlate⟩ := request_lasts .safe 12
    obtain ⟨hfirst, hstarted⟩ := hlate (by decide)
    have hle := hwindow h c hr 0 hfirst _ hstarted
    revert hle
    decide

end Agend.Connection
