import Agend.Library.Trace

/-! A call of the client while the daemon restarts: connection attempts, and requests sent again.
Times are nanoseconds of the client's own clock, which moves in the blocking calls alone. -/
namespace Agend.Connection

open Library

/-- How long a call keeps retrying while the daemon is unreachable. -/
def restartRetryWindow : Nat := 10 * 1000000000

/-- Pause between two connection attempts. -/
def retryEvery : Nat := 100 * 1000000

/-- Whether a request may be sent again after the connection ended with it already sent. -/
inductive Redo
  | safe
  | never
deriving DecidableEq

inductive ClientError
  | unreachable (socket cause : String)
  | connect (socket cause : String)
  | version (message : String)
  | daemon (code message : String)
  | restarted
  | disconnected (message : String)
deriving DecidableEq

/-- What one connection and `hello` came to. -/
inductive Attempt
  | opened
  | retry (cause : String)
  | fail (e : ClientError)
deriving DecidableEq

/-- What the wait for the reply came to. -/
inductive Reply
  | answer
  | refused (code message : String)
  | ended
  | other (e : ClientError)
deriving DecidableEq

inductive Call
  | connect
  | request (redo : Redo)
deriving DecidableEq

/-- The retry loop's own variables. -/
structure Loop where
  started : Nat
  failed : Bool
deriving DecidableEq

inductive Stage
  | attempt (l : Loop)
  | asleep (l : Loop) (asked : Nat)
  | write
  | wait
  | done (result : Except ClientError Unit)

/-- What has failed during the call. -/
inductive Failure
  | attempt (cause : String)
  | fatal (e : ClientError)
  | write
  | ended
  | reply (e : ClientError)
deriving DecidableEq

/-- The error that stands for a failure; a failed write is always followed by an attempt. -/
def Failure.report (socket : String) : Failure → Option ClientError
  | .attempt cause => some (.unreachable socket cause)
  | .fatal e => some e
  | .write => none
  | .ended => some .restarted
  | .reply e => some e

structure Caller where
  socket : String
  call : Call
  stage : Stage
  now : Nat
  retried : Nat
  /-- When each attempt of the call was started, the newest first. -/
  attempts : List Nat
  firstFailure : Option Nat
  lastFailure : Option Failure
  /-- The connection in use was opened by this call. -/
  reopened : Bool

inductive Event
  | tried (took : Nat) (outcome : Attempt)
  | woke (slept : Nat)
  | wrote (took : Nat) (complete : Bool)
  | waited (took : Nat) (reply : Reply)
deriving DecidableEq

namespace Caller

def enter (c : Caller) (stage : Stage) : Caller := { c with stage := stage }

def pass (c : Caller) (took : Nat) : Caller := { c with now := c.now + took }

/-- Something failed, at the time it is noticed. -/
def failing (c : Caller) (f : Failure) : Caller :=
  { c with firstFailure := c.firstFailure.or (some c.now), lastFailure := some f }

/-- `open_retrying` as `connect` and `reconnect` call it. -/
def openRetrying (c : Caller) : Caller := c.enter (.attempt ⟨c.now, false⟩)

/-- An attempt that failed and is worth another try while the window lasts. -/
def retryAttempt (c : Caller) (l : Loop) (cause : String) : Caller :=
  let left := l.started + restartRetryWindow - c.now
  if left = 0 then c.enter (.done (.error (.unreachable c.socket cause)))
  else c.enter (.asleep { l with failed := true } (min retryEvery left))

def attempted (c : Caller) (l : Loop) : Attempt → Caller
  | .opened =>
    match c.call with
    | .connect =>
      { c with stage := .done (.ok ()), retried := if l.failed then c.now - l.started else 0 }
    | .request _ =>
      { c with stage := .write, retried := c.retried + (c.now - l.started), reopened := true }
  | .retry cause => (c.failing (.attempt cause)).retryAttempt l cause
  | .fail e => (c.failing (.fatal e)).enter (.done (.error e))

def replied (c : Caller) : Reply → Caller
  | .answer => c.enter (.done (.ok ()))
  | .refused code message =>
    (c.failing (.reply (.daemon code message))).enter (.done (.error (.daemon code message)))
  | .ended =>
    if c.call = .request .safe then (c.failing .ended).openRetrying
    else (c.failing .ended).enter (.done (.error .restarted))
  | .other e => (c.failing (.reply e)).enter (.done (.error e))

/-- One blocking call of the client, with what it came to; a sleep may be longer than asked. -/
def step (c : Caller) : Event → Option Caller
  | .tried took outcome =>
    match c.stage with
    | .attempt l => some (({ c with attempts := c.now :: c.attempts }.pass took).attempted l outcome)
    | _ => none
  | .woke slept =>
    match c.stage with
    | .asleep l asked => if slept < asked then none else some ((c.pass slept).enter (.attempt l))
    | _ => none
  | .wrote took complete =>
    match c.stage with
    | .write =>
      if complete then some ((c.pass took).enter .wait)
      else some (((c.pass took).failing .write).openRetrying)
    | _ => none
  | .waited took reply =>
    match c.stage with
    | .wait => some ((c.pass took).replied reply)
    | _ => none

section

variable {c c' : Caller}

theorem tried_spec {took : Nat} {outcome : Attempt} (hs : c.step (.tried took outcome) = some c') :
    ∃ l, c.stage = .attempt l ∧
      c' = ({ c with attempts := c.now :: c.attempts }.pass took).attempted l outcome := by
  simp only [step] at hs
  split at hs
  case h_1 l hstage => exact ⟨l, hstage, (Option.some.inj hs).symm⟩
  case h_2 => cases hs

theorem woke_spec {slept : Nat} (hs : c.step (.woke slept) = some c') :
    ∃ l asked, c.stage = .asleep l asked ∧ asked ≤ slept ∧
      c' = (c.pass slept).enter (.attempt l) := by
  simp only [step] at hs
  split at hs
  case h_1 l asked hstage =>
    split at hs
    case isTrue => cases hs
    case isFalse hslept =>
      exact ⟨l, asked, hstage, Nat.le_of_not_lt hslept, (Option.some.inj hs).symm⟩
  case h_2 => cases hs

theorem wrote_spec {took : Nat} {complete : Bool} (hs : c.step (.wrote took complete) = some c') :
    c.stage = .write ∧ (complete = true ∧ c' = (c.pass took).enter .wait ∨
      complete = false ∧ c' = ((c.pass took).failing .write).openRetrying) := by
  simp only [step] at hs
  split at hs
  case h_1 hstage =>
    cases complete with
    | true => exact ⟨hstage, .inl ⟨rfl, (Option.some.inj hs).symm⟩⟩
    | false => exact ⟨hstage, .inr ⟨rfl, (Option.some.inj hs).symm⟩⟩
  case h_2 => cases hs

/-- The window is over, or there is a pause before the next attempt. -/
theorem retryAttempt_spec (l : Loop) (cause : String) :
    l.started + restartRetryWindow ≤ c.now ∧
        c.retryAttempt l cause = c.enter (.done (.error (.unreachable c.socket cause))) ∨
      c.now < l.started + restartRetryWindow ∧ c.retryAttempt l cause = c.enter (.asleep
        { l with failed := true } (min retryEvery (l.started + restartRetryWindow - c.now))) := by
  by_cases hleft : l.started + restartRetryWindow - c.now = 0
  · exact .inl ⟨Nat.le_of_sub_eq_zero hleft, by simp [retryAttempt, hleft]⟩
  · exact .inr ⟨by omega, by simp [retryAttempt, hleft]⟩

theorem waited_spec {took : Nat} {reply : Reply} (hs : c.step (.waited took reply) = some c') :
    c.stage = .wait ∧ c' = (c.pass took).replied reply := by
  simp only [step] at hs
  split at hs
  case h_1 hstage => exact ⟨hstage, (Option.some.inj hs).symm⟩
  case h_2 => cases hs

end

/-- The start of a call: `connect` opens, a request writes on the connection it has. -/
def begin_ (socket : String) (now retried : Nat) : Call → Caller
  | .connect => ⟨socket, .connect, .attempt ⟨now, false⟩, now, retried, [], none, none, false⟩
  | .request redo => ⟨socket, .request redo, .write, now, retried, [], none, none, false⟩

end Caller

def calls : Machine Caller Event Unit where
  init c := ∃ socket now retried call, c = Caller.begin_ socket now retried call
  step c e c' _ := c.step e = some c'

end Agend.Connection
