import Agend.Holder.Ownership

/-! Who may write to the PTY, over every interleaving of the holder's threads: a job is written only
as it was allowed under the lock, and nobody becomes the owner while it is written without it. -/
namespace Agend.Holder

open Library

variable {instanceId : String} {decode : String → Except String Bytes} {s s' s1 : State}
  {connId : Nat} {request : TerminalControlRequest} {response : HolderResponse} {lags : Bool}
  {bytes : Option Bytes} {a : Answers} {job : Job} {e : Event}
  {h : List (Transition State Event Unit)}

/-- The writer starts or ends a job. -/
def Event.isTurn : Event → Bool
  | .take _ _ | .wrote _ _ => true
  | _ => false

/-- A step that neither starts nor ends a job is a new client, a part of a write, or keeps the owner
with the connection. -/
theorem quiet_cases (hn : s.next instanceId decode e = some s') (he : e.isTurn = false) :
    Stays s s' ∨ (∃ minor lags₁ lags₂ lags₃, s' = s.accept minor lags₁ lags₂ lags₃) ∨
      ∃ w n, s.current = some w ∧
        s' = { s with current := some { w with left := w.left.drop n } } := by
  cases e with
  | accept minor lags₁ lags₂ lags₃ =>
    change (if s.stop.isSome then none else _) = _ at hn
    split at hn
    · cases hn
    · exact Or.inr (Or.inl ⟨_, _, _, _, (Option.some.inj hn).symm⟩)
  | request id request lags =>
    change (if id < s.nextConn then _ else none) = _ at hn
    split at hn
    · obtain rfl := Option.some.inj hn
      exact Or.inl (stays_serve s id request lags)
    · cases hn
  | tooLong id message lags =>
    obtain rfl := Option.some.inj hn
    exact Or.inl (stays_tooLong s id message lags)
  | ended id =>
    obtain rfl := Option.some.inj hn
    exact Or.inl (stays_hangUp s id)
  | take a lags => cases he
  | write n =>
    obtain ⟨w, hw, hn⟩ := Option.bind_eq_some_iff.mp hn
    split at hn
    · exact Or.inr (Or.inr ⟨w, n, hw, (Option.some.inj hn).symm⟩)
    · cases hn
  | wrote result lags => cases he
  | output bytes replies lags =>
    obtain rfl := Option.some.inj hn
    exact Or.inl (stays_output s bytes replies lags)
  | exit lags =>
    change (if _ then _ else none) = _ at hn
    split at hn
    · obtain rfl := Option.some.inj hn
      exact Or.inl ((stays_push s .exited lags).trans (stays_of_eq rfl rfl rfl rfl rfl rfl rfl))
    · cases hn
  | halt why => exact Or.inl (stays_halt hn)

/-- While nothing is started or ended, the job being written stays the one it is. -/
theorem owned_quiet (ho : Owned s) (hn : s.next instanceId decode e = some s')
    (he : e.isTurn = false) :
    Owned s' ∧ s'.current.map Writing.job = s.current.map Writing.job := by
  rcases quiet_cases hn he with hs | ⟨minor, lags₁, lags₂, lags₃, rfl⟩ | ⟨w, n, hw, rfl⟩
  · exact ⟨ho.stays hs, by rw [hs.current]⟩
  · exact ⟨ho.accept minor lags₁ lags₂ lags₃, by rw [current_accept]⟩
  · refine ⟨⟨ho.owner, ho.older, ho.queued, fun x hx => ?_⟩, by rw [hw]; rfl⟩
    obtain rfl := Option.some.inj hx
    exact ho.writing w hw

/-- The transition in which the writer took a job and found it allowed. -/
def Checks (t : Transition State Event Unit) (job : Job) : Prop :=
  t.event.isTurn = true ∧ (∃ rest, t.before.queue = job :: rest) ∧
    t.after.current.map Writing.job = some job ∧ Allowed t.before job

/-- A job was found allowed, and no other was started or ended since. -/
def CheckedSince (h : List (Transition State Event Unit)) (job : Job) : Prop :=
  ∃ newer t older, h = newer ++ t :: older ∧ Checks t job ∧ ∀ u ∈ newer, u.event.isTurn = false

theorem owned_init (hi : (holder instanceId decode).init s) : Owned s := by
  obtain ⟨generation, rfl⟩ := hi
  exact ⟨owner_ended rfl, nofun, nofun, nofun⟩

theorem owned_run (hr : (holder instanceId decode).Run h s) :
    Owned s ∧ ∀ w, s.current = some w → CheckedSince h w.job := by
  induction hr with
  | start hi =>
    refine ⟨owned_init hi, fun w hw => ?_⟩
    obtain ⟨generation, rfl⟩ := hi
    cases hw
  | @snoc h s s' e u hr hs ih =>
    obtain ⟨ho, hc⟩ := ih
    have hn : s.next instanceId decode e = some s' := hs
    cases he : e.isTurn with
    | false =>
      obtain ⟨ho', hjob⟩ := owned_quiet ho hn he
      refine ⟨ho', fun w' hw' => ?_⟩
      rw [hw', Option.map_some] at hjob
      obtain ⟨w, hw, hsame⟩ := Option.map_eq_some_iff.mp hjob.symm
      obtain ⟨newer, t, older, rfl, hcheck, hquiet⟩ := hc w hw
      refine ⟨⟨s, e, s', u⟩ :: newer, t, older, rfl, hsame ▸ hcheck, fun v hv => ?_⟩
      rcases List.mem_cons.mp hv with rfl | hv
      · exact he
      · exact hquiet v hv
    | true =>
      cases e with
      | take a lags =>
        obtain ⟨job, rest, hq, -, hor⟩ := take_cases ho hn
        rcases hor with ⟨hnone, ho', -⟩ | ⟨left, ho', hs', hallow⟩
        · refine ⟨ho', fun w hw => ?_⟩
          rw [hnone] at hw
          cases hw
        · have hcur : s'.current = some ⟨job, left⟩ := by rw [hs']
          refine ⟨ho', fun w hw => ?_⟩
          obtain rfl := Option.some.inj (hcur.symm.trans hw)
          have hcheck : Checks ⟨s, .take a lags, s', u⟩ job :=
            ⟨rfl, ⟨rest, hq⟩, by rw [hcur]; rfl, hallow⟩
          exact ⟨[], _, h, rfl, hcheck, List.forall_mem_nil _⟩
      | wrote result lags =>
        obtain ⟨w, -, -, hnone, ho'⟩ := wrote_cases ho hn
        refine ⟨ho', fun w hw => ?_⟩
        rw [hnone] at hw
        cases hw
      | accept _ _ _ _ | request _ _ _ | tooLong _ _ _ | ended _ | write _ | output _ _ _
      | exit _ | halt _ => cases he

/-- A new connection, or none: nobody owns the terminal. -/
theorem control_of_conn (ho : Owned s) (hn : s.next instanceId decode e = some s')
    (hc : s'.conn.map Conn.id ≠ s.conn.map Conn.id) : s'.control = none := by
  have hkept : ∀ {s1 : State}, Owned s' → Kept s1 s' → s1.conn = s.conn → s'.control = none := by
    intro s1 ho' hk hs1
    have hnone : s'.conn = none := hk.conn.resolve_left (hs1 ▸ hc)
    cases hcontrol : s'.control with
    | none => rfl
    | some attach =>
      obtain ⟨c, hconn, -⟩ := ho'.owner attach hcontrol
      rw [hnone] at hconn
      cases hconn
  cases he : e.isTurn with
  | false =>
    rcases quiet_cases hn he with hs | ⟨minor, lags₁, lags₂, lags₃, rfl⟩ | ⟨w, n, hw, rfl⟩
    · rcases hs.owner with ⟨hsame, -⟩ | ⟨-, hnone⟩
      · exact absurd hsame hc
      · exact hnone
    · exact control_accept s minor lags₁ lags₂ lags₃
    · exact (hc rfl).elim
  | true =>
    cases e with
    | take a lags =>
      obtain ⟨job, rest, -, -, hor⟩ := take_cases ho hn
      rcases hor with ⟨-, ho', hk, -⟩ | ⟨left, -, rfl, -⟩
      · exact hkept ho' hk rfl
      · exact (hc rfl).elim
    | wrote result lags =>
      obtain ⟨w, -, rfl, -, ho'⟩ := wrote_cases ho hn
      exact hkept ho' (kept_wrote { s with current := none } w.job result lags) rfl
    | accept _ _ _ _ | request _ _ _ | tooLong _ _ _ | ended _ | write _ | output _ _ _
    | exit _ | halt _ => cases he

/-- The request an answer names. -/
def HolderResponse.requestId? : HolderResponse → Option String
  | .terminalFrame requestId => some requestId
  | .terminalControl data => some data.requestId
  | .terminalOperationError requestId _ _ => some requestId
  | _ => none

/-- One answer to the request, on its connection, unless that is not the current one anymore. -/
def Answered (s s' : State) (conn : Nat) (requestId : String) : Prop :=
  (∃ r : HolderResponse, r.requestId? = some requestId ∧ s'.sent = (conn, r) :: s.sent) ∨
    s'.sent = s.sent ∧ s'.isCurrent conn = false

theorem answered_push {requestId : String} (hc : s.isCurrent connId = true)
    (hr : response.requestId? = some requestId) (hconn : s1.conn = s.conn)
    (hs : s1.sent = s.sent) (lags : Bool) :
    Answered s (s1.push response lags) connId requestId := by
  obtain ⟨c, hsome, rfl⟩ := Option.map_eq_some_iff.mp (isCurrent_iff.mp hc)
  rw [State.push, hconn.trans hsome]
  dsimp only
  split
  · exact Or.inr ⟨hs, isCurrent_none rfl _⟩
  · exact Or.inl ⟨response, hr, congrArg _ hs⟩

theorem answered_resized (hc : s.isCurrent connId = true) (size : TerminalSize) :
    Answered s (resized s connId request size a lags) connId request.requestId := by
  unfold resized
  split
  · refine answered_push hc ?_ ?_ ?_ lags <;> rfl
  dsimp only
  split
  · refine answered_push hc ?_ ?_ ?_ lags <;> rfl
  split
  · refine answered_push hc ?_ ?_ ?_ lags <;> rfl
  · refine answered_push hc ?_ ?_ ?_ lags <;> rfl

theorem answered_execute {ran : State × Option Bytes}
    (hran : execute s connId request bytes a lags = ran) (hnone : ran.2 = none) :
    Answered s ran.1 connId request.requestId := by
  subst hran
  unfold execute at hnone ⊢
  split
  · rename_i e hv
    split
    · rename_i hc
      refine answered_push hc ?_ ?_ ?_ lags <;> rfl
    · rename_i hc
      exact Or.inr ⟨rfl, Bool.eq_false_iff.mpr hc⟩
  · rename_i hv
    rw [hv] at hnone
    have hc := (validate_eq_ok hv).1
    cases hreq : request.operation with
    | acquire _ size | resize _ size => exact answered_resized hc size
    | input _ _ | daemonKey _ _ =>
      rw [hreq] at hnone
      cases hnone
    | release _ => refine answered_push hc ?_ ?_ ?_ lags <;> rfl

theorem answered_written (s : State) (connId : Nat) (request : TerminalControlRequest)
    (result : Except String Unit) (lags : Bool) :
    Answered s (written s connId request result lags) connId request.requestId := by
  unfold written
  split
  · rename_i hc
    split
    · refine answered_push hc ?_ ?_ ?_ lags <;> rfl
    · refine answered_push hc ?_ ?_ ?_ lags <;> rfl
  · rename_i hc
    exact Or.inr ⟨rfl, Bool.eq_false_iff.mpr hc⟩

/-- Bytes of the owner, or of the daemon and the screen, which need no owner. -/
def Foreign (owner : String) : Job → Prop
  | .bytes _ => False
  | .legacy _ _ => True
  | .control _ request _ =>
    match request.operation with
    | .input attach _ => attach ≠ owner
    | _ => True

theorem Permitted.not_foreign {attach : String} (hp : Permitted s job)
    (hc : s.control = some attach) : ¬ Foreign attach job := by
  have hno : s.control ≠ none := by
    rw [hc]
    exact nofun
  cases job with
  | bytes _ => exact id
  | legacy _ _ => exact fun _ => hno hp
  | control conn request _ =>
    have hop := hp.2
    intro hf
    change (match request.operation with
      | .input attach' _ => attach' ≠ attach
      | _ => True) at hf
    cases hreq : request.operation with
    | input attach' _ =>
      rw [hreq] at hop hf
      dsimp only at hop hf
      split at hop
      · exact hf (Option.some.inj (hop.1.symm.trans hc))
      · exact hno hop
    | daemonKey _ _ =>
      rw [hreq] at hop
      exact hno hop
    | acquire _ _ | resize _ _ | release _ =>
      rw [hreq] at hop
      exact hop

/-- The discipline of the terminal, over a run. -/
structure Disciplined (h : List (Transition State Event Unit)) : Prop where
  /-- Whatever is written was allowed when the writer took it, nothing was started since, and while
  its connection is current it is still permitted; without it nobody owns the terminal. -/
  writes : ∀ newer t older n w, h = newer ++ t :: older → t.event = .write n →
    t.before.current = some w → CheckedSince older w.job ∧ Permitted t.before w.job
  /-- Legacy input is queued for the current connection, with nobody owning the terminal. -/
  legacy : ∀ t ∈ h, ∀ conn bytes, .legacy conn bytes ∈ t.after.queue →
    .legacy conn bytes ∈ t.before.queue ∨ t.before.isCurrent conn = true ∧ t.before.control = none
  /-- From the moment somebody owns the terminal, and as long as they do, nothing foreign is
  written. -/
  exclusive : ∀ newer t older owner, h = newer ++ t :: older → t.after.control = some owner →
    (∀ u ∈ newer, u.after.control = some owner) → ∀ u ∈ newer, ∀ n w, u.event = .write n →
      u.before.current = some w → ¬ Foreign owner w.job
  /-- Whoever owns the terminal acquired it last, on the current connection. -/
  owner : ∀ t ∈ h, Owner t.before ∧ Owner t.after
  /-- A new, replaced or lost connection ends ownership. -/
  ended : ∀ t ∈ h, t.after.conn.map Conn.id ≠ t.before.conn.map Conn.id → t.after.control = none
  /-- A control operation that the writer took is answered once, when it is done. -/
  answered : ∀ t ∈ h, ∀ conn request bytes, (∃ a lags rest, t.event = .take a lags ∧
      t.before.queue = .control conn request bytes :: rest ∧ t.after.current = none) ∨
    (∃ result lags left, t.event = .wrote result lags ∧
      t.before.current = some ⟨.control conn request bytes, left⟩) →
    Answered t.before t.after conn request.requestId

/-- New legacy input is the current client's, with nobody owning the terminal. -/
theorem legacy_next {connId : Nat} {bytes : Bytes} (ho : Owned s)
    (hn : s.next instanceId decode e = some s') (hj : .legacy connId bytes ∈ s'.queue) :
    .legacy connId bytes ∈ s.queue ∨ s.isCurrent connId = true ∧ s.control = none := by
  cases he : e.isTurn with
  | false =>
    rcases quiet_cases hn he with hs | ⟨minor, lags₁, lags₂, lags₃, rfl⟩ | ⟨w, n, hw, rfl⟩
    · exact hs.legacy connId bytes hj
    · rw [queue_accept] at hj
      exact Or.inl hj
    · exact Or.inl hj
  | true =>
    cases e with
    | take a lags =>
      obtain ⟨job, rest, hq, -, hor⟩ := take_cases ho hn
      rw [hq]
      refine Or.inl (List.mem_cons_of_mem _ ?_)
      rcases hor with ⟨-, -, -, hrun⟩ | ⟨left, -, rfl, -⟩
      · have hqueue := queue_run { s with queue := rest } job a lags
        rw [hrun] at hqueue
        have hqueue : s'.queue = rest := hqueue
        rw [← hqueue]
        exact hj
      · exact hj
    | wrote result lags =>
      obtain ⟨w, -, rfl, -⟩ := wrote_cases ho hn
      rw [queue_wrote] at hj
      exact Or.inl hj
    | accept _ _ _ _ | request _ _ _ | tooLong _ _ _ | ended _ | write _ | output _ _ _
    | exit _ | halt _ => cases he

theorem answered_next {conn : Nat} (ho : Owned s) (hn : s.next instanceId decode e = some s')
    (hdone : (∃ a lags rest, e = .take a lags ∧
        s.queue = .control conn request bytes :: rest ∧ s'.current = none) ∨
      (∃ result lags left, e = .wrote result lags ∧
        s.current = some ⟨.control conn request bytes, left⟩)) :
    Answered s s' conn request.requestId := by
  rcases hdone with ⟨a, lags, rest, rfl, hq, hnone⟩ | ⟨result, lags, left, rfl, hw⟩
  · obtain ⟨job, rest', hq', -, hor⟩ := take_cases ho hn
    obtain ⟨rfl, rfl⟩ := List.cons.inj (hq'.symm.trans hq)
    rcases hor with ⟨-, -, -, hrun⟩ | ⟨left, -, hs', -⟩
    · have hans : Answered { s with queue := rest' } s' conn request.requestId :=
        answered_execute hrun rfl
      exact hans
    · rw [hs'] at hnone
      cases hnone
  · obtain ⟨w, hw', rfl, -⟩ := wrote_cases ho hn
    obtain rfl := Option.some.inj (hw'.symm.trans hw)
    exact answered_written { s with current := none } conn request result lags

/-- Only the controlling window writes to the PTY, over every run of the holder: what is written was
allowed when the writer took it, under the lock, and while it is written without the lock no other
window can become the owner. -/
theorem terminal_controlled (instanceId : String) (decode : String → Except String Bytes)
    {h : List (Transition State Event Unit)} {s : State}
    (hr : (holder instanceId decode).Run h s) : Disciplined h where
  writes newer t older n w hh he hw := by
    subst hh
    obtain ⟨hr, -⟩ := hr.split
    obtain ⟨ho, hc⟩ := owned_run hr
    exact ⟨hc w hw, (ho.writing w hw).1⟩
  legacy t ht conn bytes hj := by
    obtain ⟨⟨_, hr⟩, hn⟩ := hr.of_mem t ht
    exact legacy_next (owned_run hr).1 hn hj
  exclusive newer t older owner hh hown hstay u hu n w he hw := by
    subst hh
    have hbefore := (hr.during (P := fun s => s.control = some owner) hown hstay).2 u hu
    obtain ⟨⟨_, hr⟩, -⟩ := hr.of_mem u (List.mem_append_left _ hu)
    exact ((owned_run hr).1.writing w hw).1.not_foreign hbefore
  owner t ht := by
    obtain ⟨⟨_, hr⟩, hs⟩ := hr.of_mem t ht
    exact ⟨(owned_run hr).1.owner, (owned_run (hr.snoc hs)).1.owner⟩
  ended t ht hc := by
    obtain ⟨⟨_, hr⟩, hn⟩ := hr.of_mem t ht
    exact control_of_conn (owned_run hr).1 hn hc
  answered t ht conn request bytes hdone := by
    obtain ⟨⟨_, hr⟩, hn⟩ := hr.of_mem t ht
    exact answered_next (owned_run hr).1 hn hdone

/-- A holder with an agent and one client, which acquires the terminal and types. -/
def typing : List Event :=
  let granted : Answers := ⟨.ok (), .ok (), true⟩
  [.accept 3 false false false, .request 1 (.spawn "dev" (.ok ())) false,
    .request 1 (.terminalControl ⟨"r1", "g", .acquire "w" ⟨24, 80⟩⟩) false, .take granted false,
    .request 1 (.terminalControl ⟨"r2", "g", .input "w" "eQ=="⟩) false, .take granted false]

/-- Every text decodes to the letter `y`. -/
def decodeY : String → Except String Bytes := fun _ => .ok [0x79]

/-- The typed letter is written, and both requests are answered. -/
theorem terminal_controlled_typing :
    let played := held "dev" decodeY "g" (typing ++ [.write 1, .wrote (.ok ()) false])
    (played.2.sent.take 2).map (fun sent => sent.2.requestId?) = [some "r2", some "r1"] ∧
      Disciplined played.1 := by
  intro played
  exact ⟨by decide +kernel, terminal_controlled "dev" decodeY (run_held _ _ _ _)⟩

/-- Another client connects between the check and the write: the letter is written all the same. -/
theorem terminal_written_after_replacement :
    ∃ h s, (holder "dev" decodeY).Run h s ∧ ∃ t ∈ h, (t.event matches .write 1) ∧
      t.before.current =
        some ⟨.control 1 ⟨"r2", "g", .input "w" "eQ=="⟩ (some [0x79]), [0x79]⟩ ∧
      t.before.isCurrent 1 = false := by
  let played := held "dev" decodeY "g" (typing ++ [.accept 3 false false false, .write 1])
  refine ⟨played.1, played.2, run_held _ _ _ _, ?_⟩
  have hany : (played.1.any fun t => (t.event matches .write 1) && decide (t.before.current =
      some ⟨.control 1 ⟨"r2", "g", .input "w" "eQ=="⟩ (some [0x79]), [0x79]⟩) &&
        !t.before.isCurrent 1) = true := by decide +kernel
  obtain ⟨t, ht, hboth⟩ := List.any_eq_true.mp hany
  obtain ⟨hboth, hgone⟩ := Bool.and_eq_true_iff.mp hboth
  obtain ⟨hwrite, hcur⟩ := Bool.and_eq_true_iff.mp hboth
  exact ⟨t, ht, hwrite, of_decide_eq_true hcur, by simpa using hgone⟩

end Agend.Holder
