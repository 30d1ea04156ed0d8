import Agend.Holder.Server

/-! Who owns the terminal: what each thread's step does to the owner, and what a job is checked for
when the writer reaches it. -/
namespace Agend.Holder

open Library

namespace Job

/-- The connection that enqueued it, when it is remembered. -/
def conn : Job → Option Nat
  | .bytes _ => none
  | .control conn _ _ => some conn
  | .legacy conn _ => some conn

end Job

/-- Whoever owns the terminal acquired it last, on the connection in charge. -/
def Owner (s : State) : Prop :=
  ∀ attach, s.control = some attach →
    ∃ c, s.conn = some c ∧ s.owners.head? = some (.acquired c.id attach)

/-- What is checked, under the lock, before a job writes. -/
def Allowed (s : State) : Job → Prop
  | .bytes _ => True
  | .legacy conn _ => s.isCurrent conn = true ∧ s.running = true ∧ s.control = none
  | .control conn request _ =>
    s.isCurrent conn = true ∧ s.running = true ∧ request.generation = s.screen.generation ∧
      match request.operation with
      | .input attach _ =>
        s.control = some attach ∧ s.owners.head? = some (.acquired conn attach)
      | .daemonKey _ expectedRevision =>
        s.control = none ∧ expectedRevision = s.screen.revision
      | _ => False

/-- What holds while a job writes: a connection may have ended, and ownership with it. -/
def Permitted (s : State) : Job → Prop
  | .bytes _ => True
  | .legacy _ _ => s.control = none
  | .control conn request _ =>
    request.generation = s.screen.generation ∧
      match request.operation with
      | .input attach _ =>
        if s.isCurrent conn = true then
          s.control = some attach ∧ s.owners.head? = some (.acquired conn attach)
        else s.control = none
      | .daemonKey _ _ => s.control = none
      | _ => False

structure Owned (s : State) : Prop where
  owner : Owner s
  older : ∀ c, s.conn = some c → c.id < s.nextConn
  queued : ∀ job ∈ s.queue, ∀ id ∈ job.conn, id < s.nextConn
  writing : ∀ w, s.current = some w →
    Permitted s w.job ∧ ∀ id ∈ w.job.conn, id < s.nextConn

/-- What no step but a new client changes: the connection stays or goes, and what is new on the
queue is of the connection in charge. -/
structure Kept (s s' : State) : Prop where
  generation : s'.screen.generation = s.screen.generation
  nextConn : s'.nextConn = s.nextConn
  current : s'.current = s.current
  queue : ∀ job ∈ s'.queue, job ∈ s.queue ∨ ∀ id ∈ job.conn, s.isCurrent id = true
  conn : s'.conn.map Conn.id = s.conn.map Conn.id ∨ s'.conn = none

/-- The owner stays with the connection, or ends with it. -/
structure Stays (s s' : State) : Prop extends Kept s s' where
  owner : s'.conn.map Conn.id = s.conn.map Conn.id ∧ s'.control = s.control ∧
    s'.owners = s.owners ∨ s'.conn = none ∧ s'.control = none
  legacy : ∀ conn bytes, .legacy conn bytes ∈ s'.queue →
    .legacy conn bytes ∈ s.queue ∨ s.isCurrent conn = true ∧ s.control = none

variable {instanceId : String} {decode : String → Except String Bytes} {s s' s1 s2 : State}
  {connId id : Nat} {request : TerminalControlRequest} {response : HolderResponse}
  {lags : Bool} {bytes : Option Bytes} {a : Answers} {job : Job} {e : Event} {u : Unit}
  {h : List (Transition State Event Unit)}

theorem isCurrent_iff : s.isCurrent connId = true ↔ s.conn.map Conn.id = some connId := by
  unfold State.isCurrent
  cases s.conn <;> simp

theorem isCurrent_congr (h : s'.conn.map Conn.id = s.conn.map Conn.id) (id : Nat) :
    s'.isCurrent id = s.isCurrent id := by
  rw [Bool.eq_iff_iff, isCurrent_iff, isCurrent_iff, h]

theorem isCurrent_none (h : s.conn = none) (id : Nat) : s.isCurrent id = false := by
  rw [State.isCurrent, h]
  rfl

theorem Kept.refl (s : State) : Kept s s := ⟨rfl, rfl, rfl, fun _ => Or.inl, Or.inl rfl⟩

theorem Kept.trans (h₁ : Kept s s1) (h₂ : Kept s1 s2) : Kept s s2 where
  generation := h₂.generation.trans h₁.generation
  nextConn := h₂.nextConn.trans h₁.nextConn
  current := h₂.current.trans h₁.current
  queue job hj := by
    rcases h₂.queue job hj with hj | hnew
    · exact h₁.queue job hj
    · refine Or.inr fun id hid => ?_
      have hc := isCurrent_iff.mp (hnew id hid)
      rcases h₁.conn with he | he
      · exact isCurrent_iff.mpr (he ▸ hc)
      · rw [he] at hc
        cases hc
  conn := by
    rcases h₂.conn with h | h
    · exact h₁.conn.imp h.trans fun h1 => by
        rw [h1] at h
        exact Option.map_eq_none_iff.mp h
    · exact Or.inr h

theorem Stays.refl (s : State) : Stays s s :=
  ⟨.refl s, Or.inl ⟨rfl, rfl, rfl⟩, fun _ _ => Or.inl⟩

theorem Stays.trans (h₁ : Stays s s1) (h₂ : Stays s1 s2) : Stays s s2 := by
  refine ⟨h₁.toKept.trans h₂.toKept, ?_, fun conn bytes hj => ?_⟩
  · rcases h₂.owner with ⟨hc, hk, ho⟩ | h
    · refine h₁.owner.imp (fun ⟨hc', hk', ho'⟩ => ⟨hc.trans hc', hk.trans hk', ho.trans ho'⟩)
        fun ⟨hc', hk'⟩ => ?_
      rw [hc'] at hc
      exact ⟨Option.map_eq_none_iff.mp hc, hk.trans hk'⟩
    · exact Or.inr h
  · rcases h₂.legacy conn bytes hj with hj | ⟨hcur, hk⟩
    · exact h₁.legacy conn bytes hj
    · rcases h₁.owner with ⟨hc, hk', -⟩ | ⟨hc, -⟩
      · exact Or.inr ⟨(isCurrent_congr hc conn).symm.trans hcur, hk'.symm.trans hk⟩
      · rw [isCurrent_none hc] at hcur
        cases hcur

theorem stays_push (s : State) (response : HolderResponse) (lags : Bool) :
    Stays s (s.push response lags) := by
  unfold State.push
  split
  · exact .refl s
  · split
    · exact ⟨⟨rfl, rfl, rfl, fun _ => Or.inl, Or.inr rfl⟩, Or.inr ⟨rfl, rfl⟩, fun _ _ => Or.inl⟩
    · exact ⟨⟨rfl, rfl, rfl, fun _ => Or.inl, Or.inl rfl⟩, Or.inl ⟨rfl, rfl, rfl⟩,
        fun _ _ => Or.inl⟩

/-- A job of the connection in charge, or of none. -/
theorem stays_submit (hs : s.submit job = .ok s') (hc : ∀ id ∈ job.conn, s.isCurrent id = true)
    (hl : ∀ conn bytes, job = .legacy conn bytes → s.control = none) : Stays s s' := by
  unfold State.submit at hs
  split at hs
  · cases hs
  · split at hs
    · cases hs
      refine ⟨⟨rfl, rfl, rfl, fun j hj => ?_, Or.inl rfl⟩, Or.inl ⟨rfl, rfl, rfl⟩,
        fun conn bytes hj => ?_⟩
      · rcases List.mem_append.mp hj with hj | hj
        · exact Or.inl hj
        · rw [List.mem_singleton.mp hj]
          exact Or.inr hc
      · rcases List.mem_append.mp hj with hj | hj
        · exact Or.inl hj
        · obtain rfl := List.mem_singleton.mp hj
          exact Or.inr ⟨hc conn rfl, hl conn bytes rfl⟩
    · cases hs

theorem conn_submit (hs : s.submit job = .ok s') : s'.conn = s.conn := by
  unfold State.submit at hs
  split at hs
  · cases hs
  · split at hs
    · cases hs
      rfl
    · cases hs

/-- The connection in charge keeps its id. -/
theorem stays_conn {c c' : Conn} (hc : s.conn = some c) (hid : c'.id = c.id) :
    Stays s { s with conn := some c' } := by
  have he : (some c').map Conn.id = s.conn.map Conn.id := by rw [hc]; exact congrArg some hid
  exact ⟨⟨rfl, rfl, rfl, fun _ => Or.inl, Or.inl he⟩, Or.inl ⟨he, rfl, rfl⟩, fun _ _ => Or.inl⟩

theorem isCurrent_of_conn {c : Conn} (hc : s.conn = some c) : s.isCurrent c.id = true := by
  rw [isCurrent_iff, hc]
  rfl

theorem stays_accepted {conn : Conn} (hc : s.conn = some conn)
    (ha : accepted decode s conn request = .ok s') : Stays s s' := by
  unfold accepted at ha
  obtain ⟨-, ha⟩ := require_bind_eq_ok.mp ha
  obtain ⟨-, ha⟩ := require_bind_eq_ok.mp ha
  obtain ⟨-, -, ha⟩ := bind_eq_ok.mp ha
  obtain ⟨-, ha⟩ := require_bind_eq_ok.mp ha
  obtain ⟨-, ha⟩ := require_bind_eq_ok.mp ha
  obtain ⟨bytes, -, ha⟩ := bind_eq_ok.mp ha
  obtain ⟨s1, hs1, ha⟩ := bind_eq_ok.mp ha
  obtain rfl := Except.ok.inj ha
  have hsub : Stays s s1 := by
    refine stays_submit (mapError_eq_ok.mp hs1) (fun id hid => ?_) nofun
    obtain rfl := Option.some.inj hid
    exact isCurrent_of_conn hc
  have hconn : s1.conn = some conn := by rw [conn_submit (mapError_eq_ok.mp hs1), hc]
  exact hsub.trans (stays_conn hconn rfl)

theorem stays_enqueue (s : State) (request : TerminalControlRequest) :
    Stays s (enqueue decode s request).1 := by
  unfold enqueue
  split
  · exact .refl s
  · rename_i conn hc
    split
    · rename_i ha
      exact stays_accepted hc ha
    · exact .refl s

theorem stays_legacyInput (s : State) (bytes : Bytes) : Stays s (legacyInput s bytes).1 := by
  unfold legacyInput
  split
  · exact .refl s
  rename_i hfree
  split
  · exact .refl s
  split
  · exact .refl s
  split
  · exact .refl s
  · rename_i conn hc
    split
    · rename_i s1 hs
      refine stays_submit hs (fun id hid => ?_) fun _ _ _ => by simpa using hfree
      obtain rfl := Option.some.inj hid
      exact isCurrent_of_conn hc
    · exact .refl s
    · exact .refl s

theorem stays_writePty (s : State) (bytes : Bytes) : Stays s (writePty s bytes).1 := by
  unfold writePty
  split
  · exact .refl s
  split
  · exact .refl s
  split
  · rename_i s1 hs
    exact stays_submit hs nofun nofun
  · exact .refl s
  · exact .refl s

theorem stays_trySend (s : State) (bytes : Bytes) : Stays s (s.trySend bytes) := by
  unfold State.trySend
  split
  · rename_i s1 hs
    exact stays_submit hs nofun nofun
  · exact .refl s

/-- What neither the owner, the connection nor the writer sees. -/
theorem stays_of_eq (hg : s'.screen.generation = s.screen.generation)
    (hn : s'.nextConn = s.nextConn) (hw : s'.current = s.current) (hq : s'.queue = s.queue)
    (hc : s'.conn = s.conn) (hk : s'.control = s.control) (ho : s'.owners = s.owners) :
    Stays s s' :=
  ⟨⟨hg, hn, hw, fun _ hj => Or.inl (hq ▸ hj), Or.inl (by rw [hc])⟩,
    Or.inl ⟨by rw [hc], hk, ho⟩, fun _ _ hj => Or.inl (hq ▸ hj)⟩

theorem generation_resize (s : Screen) (size : TerminalSize) :
    (s.resize size).generation = s.generation := by
  unfold Screen.resize
  split <;> rfl

theorem generation_process (s : Screen) (bytes : Bytes) :
    (s.process bytes).generation = s.generation := by
  unfold Screen.process
  split <;> rfl

theorem stays_spawnAgent (s : State) (id : String) (spawned : Except String Unit) :
    Stays s (spawnAgent instanceId s id spawned).1 := by
  unfold spawnAgent
  split
  · exact .refl s
  split
  · exact .refl s
  split
  · exact .refl s
  split
  · exact .refl s
  · exact stays_of_eq rfl rfl rfl rfl rfl rfl rfl

theorem stays_legacyResize (s : State) (size : TerminalSize) (resized : Except String Unit) :
    Stays s (legacyResize s size resized).1 := by
  unfold legacyResize
  split
  · exact .refl s
  split
  · exact .refl s
  split
  · exact .refl s
  · exact stays_of_eq (generation_resize _ _) rfl rfl rfl rfl rfl rfl

theorem stays_getTerminalFrame (s : State) (requestId : String)
    (sampled : Except FrameError Unit) : Stays s (getTerminalFrame s requestId sampled).1 := by
  unfold getTerminalFrame
  split
  · exact .refl s
  · rename_i conn hc
    split
    · exact .refl s
    · exact stays_conn hc rfl

/-- No request changes the owner: what would is queued. -/
theorem stays_handle (instanceId : String) (decode : String → Except String Bytes) (s : State)
    (request : HolderRequest) : Stays s (handle instanceId decode s request).1 := by
  unfold handle
  split
  · exact .refl s
  cases request with
  | hello => exact .refl s
  | spawn id spawned => exact stays_spawnAgent s id spawned
  | resize size resized => exact stays_legacyResize s size resized
  | sendControlKey key =>
    dsimp only
    split
    · exact stays_writePty s _
    · exact .refl s
  | terminalControl request => exact stays_enqueue s request
  | operatorTerminalInput bytesBase64 =>
    dsimp only
    split
    · exact stays_legacyInput s _
    · exact .refl s
  | getTerminalFrame requestId sampled => exact stays_getTerminalFrame s requestId sampled
  | snapshot => exact .refl s
  | shutdown => exact stays_of_eq rfl rfl rfl rfl rfl rfl rfl
  | unknown => exact .refl s
  | malformed message => exact .refl s

theorem stays_serve (s : State) (id : Nat) (request : HolderRequest) (lags : Bool) :
    Stays s (s.serve instanceId decode id request lags) := by
  have hh := stays_handle instanceId decode s request
  unfold State.serve
  split
  · split
    · rename_i s1 response hr
      rw [hr] at hh
      exact hh.trans (stays_push s1 response lags)
    · rename_i s1 hr
      rw [hr] at hh
      exact hh
  split
  · exact .refl s
  split
  · exact stays_handle instanceId decode s .shutdown
  · exact .refl s

theorem stays_hangUp (s : State) (id : Nat) : Stays s (s.hangUp id) := by
  unfold State.hangUp
  split
  · exact ⟨⟨rfl, rfl, rfl, fun _ => Or.inl, Or.inr rfl⟩, Or.inr ⟨rfl, rfl⟩, fun _ _ => Or.inl⟩
  · exact .refl s

theorem stays_output (s : State) (bytes : Bytes) (replies : List Bytes) (lags : Bool) :
    Stays s ((replies.foldl State.trySend { s with screen := s.screen.process bytes }).push
      (.ptyBytes bytes) lags) := by
  have hprocess : Stays s { s with screen := s.screen.process bytes } :=
    stays_of_eq (generation_process _ _) rfl rfl rfl rfl rfl rfl
  refine Stays.trans ?_ (stays_push _ _ _)
  generalize { s with screen := s.screen.process bytes } = s1 at hprocess ⊢
  induction replies generalizing s1 with
  | nil => exact hprocess
  | cons reply replies ih => exact ih _ (hprocess.trans (stays_trySend s1 reply))

theorem Owner.stays (ho : Owner s) (hs : Stays s s') : Owner s' := by
  intro attach ha
  rcases hs.owner with ⟨hc, hk, hl⟩ | ⟨-, hk⟩
  · obtain ⟨c, hconn, hhead⟩ := ho attach (hk ▸ ha)
    rw [hconn] at hc
    obtain ⟨c', hc', hid⟩ := Option.map_eq_some_iff.mp hc
    exact ⟨c', hc', by rw [hl, hhead, hid]⟩
  · rw [hk] at ha
    cases ha

theorem owner_ended (h : s.control = none) : Owner s := by
  intro attach ha
  rw [h] at ha
  cases ha

/-- A job that may write stays permitted while nobody else does. -/
theorem Permitted.stays (hp : Permitted s job) (hs : Stays s s') : Permitted s' job := by
  have hnone : s.control = none → s'.control = none := by
    intro hn
    rcases hs.owner with ⟨-, hk, -⟩ | ⟨-, hk⟩
    · exact hk.trans hn
    · exact hk
  cases job with
  | bytes _ => trivial
  | legacy _ _ => exact hnone hp
  | control conn request _ =>
    refine ⟨hp.1.trans hs.generation.symm, ?_⟩
    have hop := hp.2
    cases hreq : request.operation with
    | input attach _ =>
      rw [hreq] at hop
      dsimp only at hop ⊢
      rcases hs.owner with ⟨hc, hk, hl⟩ | ⟨hc, hk⟩
      · rw [isCurrent_congr hc, hk, hl]
        exact hop
      · rw [isCurrent_none hc, if_neg Bool.false_ne_true]
        exact hk
    | daemonKey _ _ =>
      rw [hreq] at hop
      exact hnone hop
    | acquire _ _ | resize _ _ | release _ =>
      rw [hreq] at hop
      exact hop.elim

theorem Owned.isCurrent_lt (ho : Owned s) (hc : s.isCurrent id = true) : id < s.nextConn := by
  obtain ⟨c, hconn, rfl⟩ := Option.map_eq_some_iff.mp (isCurrent_iff.mp hc)
  exact ho.older c hconn

/-- What a step that starts no client leaves of the bookkeeping of connections. -/
theorem Owned.kept (ho : Owned s) (hs : Kept s s') (howner : Owner s')
    (hw : ∀ w, s'.current = some w → Permitted s' w.job) : Owned s' where
  owner := howner
  older c hc := by
    rw [hs.nextConn]
    refine ho.isCurrent_lt (isCurrent_iff.mpr ?_)
    rcases hs.conn with h | h
    · rw [← h, hc]
      rfl
    · rw [h] at hc
      cases hc
  queued job hj id hid := by
    rw [hs.nextConn]
    rcases hs.queue job hj with hj | hnew
    · exact ho.queued job hj id hid
    · exact ho.isCurrent_lt (hnew id hid)
  writing w hcur := by
    refine ⟨hw w hcur, fun id hid => ?_⟩
    rw [hs.nextConn]
    exact (ho.writing w (hs.current ▸ hcur)).2 id hid

theorem Owned.stays (ho : Owned s) (hs : Stays s s') : Owned s' :=
  ho.kept hs.toKept (ho.owner.stays hs) fun w hw =>
    (ho.writing w (hs.current ▸ hw)).1.stays hs

/-- A new client: nobody owns the terminal, and no job is of its connection. -/
theorem Owned.accept (ho : Owned s) (minor : Nat) (lags₁ lags₂ lags₃ : Bool) :
    Owned (s.accept minor lags₁ lags₂ lags₃) := by
  let s1 : State := { s with
    nextConn := s.nextConn + 1
    latestConn := s.nextConn
    conn := some { id := s.nextConn, minor, structured := false } }
  have hfresh : ∀ id, id < s.nextConn → s1.endControl.isCurrent id = false := by
    intro id hid
    have hne : s.nextConn ≠ id := (Nat.ne_of_lt hid).symm
    exact decide_eq_false hne
  have hended : Owned s1.endControl := by
    refine ⟨owner_ended rfl, fun c hc => ?_, fun job hj id hid => ?_, fun w hw => ⟨?_, ?_⟩⟩
    · obtain rfl := Option.some.inj hc
      exact Nat.lt_succ_self _
    · exact Nat.lt_succ_of_lt (ho.queued job hj id hid)
    · obtain ⟨hp, hid⟩ := ho.writing w hw
      obtain ⟨job, left⟩ := w
      cases job with
      | bytes _ => trivial
      | legacy _ _ => exact rfl
      | control conn request _ =>
        refine ⟨hp.1, ?_⟩
        have hop := hp.2
        cases hreq : request.operation with
        | input attach _ =>
          dsimp only
          rw [hfresh conn (hid conn rfl), if_neg Bool.false_ne_true]
          rfl
        | daemonKey _ _ => exact rfl
        | acquire _ _ | resize _ _ | release _ =>
          rw [hreq] at hop
          exact hop.elim
    · exact fun id hid => Nat.lt_succ_of_lt ((ho.writing w hw).2 id hid)
  have hgreeted := (hended.stays (stays_push _ (.hello minor) lags₁)).stays
    (stays_push _ .screenSnapshot lags₂)
  unfold State.accept
  dsimp only
  split
  · exact hgreeted.stays (stays_push _ _ _)
  · exact hgreeted

theorem kept_push (s : State) (response : HolderResponse) (lags : Bool) :
    Kept s (s.push response lags) :=
  (stays_push s response lags).toKept

theorem current_accept (s : State) (minor : Nat) (lags₁ lags₂ lags₃ : Bool) :
    (s.accept minor lags₁ lags₂ lags₃).current = s.current := by
  unfold State.accept
  dsimp only
  split
  · rw [(kept_push _ _ _).current, (kept_push _ _ _).current, (kept_push _ _ _).current]
    rfl
  · rw [(kept_push _ _ _).current, (kept_push _ _ _).current]
    rfl

theorem queue_push (s : State) (response : HolderResponse) (lags : Bool) :
    (s.push response lags).queue = s.queue := by
  unfold State.push
  split
  · rfl
  · split <;> rfl

theorem queue_accept (s : State) (minor : Nat) (lags₁ lags₂ lags₃ : Bool) :
    (s.accept minor lags₁ lags₂ lags₃).queue = s.queue := by
  unfold State.accept
  dsimp only
  split
  · rw [queue_push, queue_push, queue_push]
    rfl
  · rw [queue_push, queue_push]
    rfl

theorem control_accept (s : State) (minor : Nat) (lags₁ lags₂ lags₃ : Bool) :
    (s.accept minor lags₁ lags₂ lags₃).control = none := by
  have hpush : ∀ {s1 : State} (r : HolderResponse) (lags : Bool), s1.control = none →
      (s1.push r lags).control = none := by
    intro s1 r lags h1
    rcases (stays_push s1 r lags).owner with ⟨-, hk, -⟩ | ⟨-, hk⟩
    · exact hk.trans h1
    · exact hk
  unfold State.accept
  dsimp only
  split
  · exact hpush _ _ (hpush _ _ (hpush _ _ rfl))
  · exact hpush _ _ (hpush _ _ rfl)

theorem validate_eq_ok {v : Unit} (hv : validate s connId request = .ok v) :
    s.isCurrent connId = true ∧ s.running = true ∧ request.generation = s.screen.generation ∧
      match request.operation with
      | .daemonKey _ expectedRevision => s.control = none ∧ expectedRevision = s.screen.revision
      | .acquire _ _ => True
      | operation => s.control = some operation.attachId := by
  unfold validate at hv
  obtain ⟨hc, hv⟩ := require_bind_eq_ok.mp hv
  obtain ⟨hr, hv⟩ := require_bind_eq_ok.mp hv
  obtain ⟨hg, hv⟩ := require_bind_eq_ok.mp hv
  refine ⟨hc, hr, hg, ?_⟩
  have howns : request.operation.isDaemonKey = false → request.operation.isAcquire = true ∨
      s.control = some request.operation.attachId := by
    intro hk
    cases hreq : request.operation with
    | daemonKey _ _ =>
      rw [hreq] at hk
      cases hk
    | acquire _ _ | resize _ _ | input _ _ | release _ =>
      rw [hreq] at hv
      obtain ⟨-, hv⟩ := require_bind_eq_ok.mp hv
      exact (require_bind_eq_ok.mp hv).1
  cases hreq : request.operation with
  | daemonKey key expectedRevision =>
    rw [hreq] at hv
    obtain ⟨hn, hv⟩ := require_bind_eq_ok.mp hv
    exact ⟨hn, (require_bind_eq_ok.mp hv).1⟩
  | acquire _ _ => trivial
  | resize _ _ | input _ _ | release _ =>
    rw [hreq] at howns
    exact (howns rfl).resolve_left Bool.false_ne_true

theorem kept_endControl (s : State) : Kept s s.endControl :=
  ⟨rfl, rfl, rfl, fun _ => Or.inl, Or.inl rfl⟩

/-- Ownership ended, and an answer that may end the connection too. -/
theorem owner_push_ended (s : State) (response : HolderResponse) (lags : Bool) :
    Owner (s.endControl.push response lags) :=
  Owner.stays (owner_ended rfl) (stays_push _ response lags)

theorem kept_resized (s : State) (connId : Nat) (request : TerminalControlRequest)
    (size : TerminalSize) (a : Answers) (lags : Bool) :
    Kept s (resized s connId request size a lags) := by
  have hscreen : Kept s { s with screen := s.screen.resize size } :=
    ⟨generation_resize _ _, rfl, rfl, fun _ => Or.inl, Or.inl rfl⟩
  unfold resized
  split
  · exact kept_push _ _ _
  dsimp only
  split
  · exact hscreen.trans ((kept_endControl _).trans (kept_push _ _ _))
  split
  · refine hscreen.trans (Kept.trans ?_ (kept_push _ _ _))
    exact ⟨rfl, rfl, rfl, fun _ => Or.inl, Or.inl rfl⟩
  · exact hscreen.trans ((kept_endControl _).trans (kept_push _ _ _))

/-- Only an `Acquire` makes an owner; a `Resize` that is validated keeps its own. -/
theorem owner_resized (ho : Owner s) (hv : validate s connId request = .ok ())
    (hop : request.operation.isAcquire = true ∨
      s.control = some request.operation.attachId) (size : TerminalSize) (a : Answers)
    (lags : Bool) : Owner (resized s connId request size a lags) := by
  obtain ⟨hc, -⟩ := validate_eq_ok hv
  obtain ⟨c, hconn, rfl⟩ := Option.map_eq_some_iff.mp (isCurrent_iff.mp hc)
  unfold resized
  split
  · exact ho.stays (stays_push _ _ _)
  dsimp only
  split
  · exact owner_push_ended _ _ _
  split
  · refine Owner.stays ?_ (stays_push _ _ _)
    intro attach ha
    obtain rfl := Option.some.inj ha
    refine ⟨c, hconn, ?_⟩
    cases hreq : request.operation with
    | acquire _ _ => rfl
    | daemonKey _ _ | resize _ _ | input _ _ | release _ =>
      rw [hreq] at hop
      obtain ⟨c', hc', hhead⟩ := ho _ (hop.resolve_left Bool.false_ne_true)
      obtain rfl := Option.some.inj (hconn.symm.trans hc')
      exact hhead
  · exact owner_push_ended _ _ _

/-- The writer is done with an operation, or it may write and nothing has changed. -/
theorem execute_cases (ho : Owner s) :
    ((execute s connId request bytes a lags).2 = none ∧
      Kept s (execute s connId request bytes a lags).1 ∧
      Owner (execute s connId request bytes a lags).1) ∨
    execute s connId request bytes a lags = (s, some (bytes.getD [])) ∧
      Allowed s (.control connId request bytes) := by
  unfold execute
  split
  · split
    · exact Or.inl ⟨rfl, kept_push _ _ _, ho.stays (stays_push _ _ _)⟩
    · exact Or.inl ⟨rfl, .refl s, ho⟩
  · rename_i hv
    obtain ⟨hc, hr, hg, hop⟩ := validate_eq_ok hv
    obtain ⟨c, hconn, rfl⟩ := Option.map_eq_some_iff.mp (isCurrent_iff.mp hc)
    cases hreq : request.operation with
    | acquire attach size =>
      exact Or.inl ⟨rfl, kept_resized _ _ _ _ _ _,
        owner_resized ho hv (Or.inl (by rw [hreq]; rfl)) size a lags⟩
    | resize attach size =>
      rw [hreq] at hop
      exact Or.inl ⟨rfl, kept_resized _ _ _ _ _ _,
        owner_resized ho hv (Or.inr (by rw [hreq]; exact hop)) size a lags⟩
    | input attach _ =>
      rw [hreq] at hop
      obtain ⟨c', hc', hhead⟩ := ho attach hop
      obtain rfl := Option.some.inj (hconn.symm.trans hc')
      refine Or.inr ⟨rfl, hc, hr, hg, ?_⟩
      rw [hreq]
      exact ⟨hop, hhead⟩
    | daemonKey _ _ =>
      rw [hreq] at hop
      refine Or.inr ⟨rfl, hc, hr, hg, ?_⟩
      rw [hreq]
      exact hop
    | release _ =>
      exact Or.inl ⟨rfl, (kept_endControl s).trans (kept_push _ _ _), owner_push_ended _ _ _⟩

theorem legacyOperation_cases {bytes : Bytes} (ho : Owner s) :
    ((legacyOperation s connId bytes lags).2 = none ∧
      Kept s (legacyOperation s connId bytes lags).1 ∧
      Owner (legacyOperation s connId bytes lags).1) ∨
    legacyOperation s connId bytes lags = (s, some bytes) ∧ Allowed s (.legacy connId bytes) := by
  unfold legacyOperation
  split
  · exact Or.inl ⟨rfl, .refl s, ho⟩
  · rename_i hc
    split
    · exact Or.inl ⟨rfl, kept_push _ _ _, ho.stays (stays_push _ _ _)⟩
    · rename_i hno
      rw [Bool.or_eq_true, not_or] at hno
      exact Or.inr ⟨rfl, by simpa using hc, by simpa using hno.2, by simpa using hno.1⟩

theorem stays_tooLong (s : State) (id : Nat) (message : String) (lags : Bool) :
    Stays s (s.tooLong id message lags) := by
  unfold State.tooLong
  split
  · exact stays_push _ _ _
  · exact .refl s

theorem stays_halt {why : Stop} (hn : s.halt why = some s') : Stays s s' := by
  unfold State.halt at hn
  split at hn
  · obtain rfl := Option.some.inj hn
    exact stays_of_eq rfl rfl rfl rfl rfl rfl rfl
  split at hn
  · obtain rfl := Option.some.inj hn
    exact stays_of_eq rfl rfl rfl rfl rfl rfl rfl
  · split at hn
    · cases hn
    · obtain rfl := Option.some.inj hn
      exact stays_of_eq rfl rfl rfl rfl rfl rfl rfl
  · cases hn

theorem run_cases (ho : Owner s) (job : Job) (a : Answers) (lags : Bool) :
    ((s.run job a lags).2 = none ∧ Kept s (s.run job a lags).1 ∧ Owner (s.run job a lags).1) ∨
    ∃ left, s.run job a lags = (s, some left) ∧ Allowed s job := by
  cases job with
  | bytes bytes => exact Or.inr ⟨bytes, rfl, trivial⟩
  | control conn request bytes => exact (execute_cases ho).imp id fun h => ⟨_, h⟩
  | legacy conn bytes => exact (legacyOperation_cases ho).imp id fun h => ⟨bytes, h⟩

theorem queue_resized (s : State) (connId : Nat) (request : TerminalControlRequest)
    (size : TerminalSize) (a : Answers) (lags : Bool) :
    (resized s connId request size a lags).queue = s.queue := by
  unfold resized
  split
  · exact queue_push _ _ _
  dsimp only
  split
  · exact queue_push _ _ _
  split <;> exact queue_push _ _ _

/-- Running a job queues nothing. -/
theorem queue_run (s : State) (job : Job) (a : Answers) (lags : Bool) :
    (s.run job a lags).1.queue = s.queue := by
  cases job with
  | bytes _ => rfl
  | control conn request bytes =>
    change (execute s conn request bytes a lags).1.queue = s.queue
    unfold execute
    split
    · split
      · exact queue_push _ _ _
      · rfl
    · split
      · exact queue_resized _ _ _ _ _ _
      · exact queue_resized _ _ _ _ _ _
      · rfl
      · rfl
      · exact queue_push _ _ _
  | legacy conn bytes =>
    change (legacyOperation s conn bytes lags).1.queue = s.queue
    unfold legacyOperation
    split
    · rfl
    · split
      · exact queue_push _ _ _
      · rfl

theorem queue_wrote (s : State) (job : Job) (result : Except String Unit) (lags : Bool) :
    (s.wrote job result lags).queue = s.queue := by
  unfold State.wrote
  split
  · rfl
  · rfl
  · unfold written
    split
    · split
      · exact queue_push _ _ _
      · exact queue_push _ _ _
    · rfl
  · rfl
  · split
    · exact queue_push _ _ _
    · rfl

theorem Allowed.permitted (ha : Allowed s job) : Permitted s job := by
  cases job with
  | bytes _ => trivial
  | legacy _ _ => exact ha.2.2
  | control conn request _ =>
    obtain ⟨hc, -, hg, hop⟩ := ha
    refine ⟨hg, ?_⟩
    cases hreq : request.operation with
    | input attach _ =>
      rw [hreq] at hop
      dsimp only
      rw [if_pos hc]
      exact hop
    | daemonKey _ _ =>
      rw [hreq] at hop
      exact hop.1
    | acquire _ _ | resize _ _ | release _ =>
      rw [hreq] at hop
      exact hop

theorem kept_wrote (s : State) (job : Job) (result : Except String Unit) (lags : Bool) :
    Kept s (s.wrote job result lags) := by
  unfold State.wrote
  split
  · exact .refl s
  · exact ⟨rfl, rfl, rfl, fun _ => Or.inl, Or.inl rfl⟩
  · unfold written
    split
    · split
      · exact kept_push _ _ _
      · exact (kept_endControl s).trans (kept_push _ _ _)
    · exact .refl s
  · exact .refl s
  · split
    · exact kept_push _ _ _
    · exact .refl s

theorem owner_wrote (ho : Owner s) (job : Job) (result : Except String Unit) (lags : Bool) :
    Owner (s.wrote job result lags) := by
  unfold State.wrote
  split
  · exact ho
  · exact ho
  · unfold written
    split
    · split
      · exact ho.stays (stays_push _ _ _)
      · exact owner_push_ended _ _ _
    · exact ho
  · exact ho
  · split
    · exact ho.stays (stays_push _ _ _)
    · exact ho

theorem idle_eq (h : s.current = none) : { s with current := none } = s := by
  rw [← h]

/-- The writer took the next job, and is done with it or was allowed to write. -/
theorem take_cases (ho : Owned s) (hn : s.next instanceId decode (.take a lags) = some s') :
    ∃ job rest, s.queue = job :: rest ∧ s.current = none ∧
      ((s'.current = none ∧ Owned s' ∧ Kept { s with queue := rest } s' ∧
          { s with queue := rest }.run job a lags = (s', none)) ∨
        ∃ left, Owned s' ∧ s' = { s with queue := rest, current := some ⟨job, left⟩ } ∧
          Allowed s job) := by
  have hn : s.take a lags = some s' := hn
  unfold State.take at hn
  split at hn
  · rename_i job rest _ hcur hq
    have hrest : Owned { s with queue := rest } := by
      refine ⟨ho.owner, ho.older, fun j hj => ho.queued j (hq ▸ List.mem_cons_of_mem _ hj),
        ho.writing⟩
    have hjob : ∀ id ∈ job.conn, id < s.nextConn := ho.queued job (hq ▸ List.mem_cons_self)
    refine ⟨job, rest, hq, hcur, ?_⟩
    rcases run_cases hrest.owner job a lags with
      ⟨hnone, hkept, howner⟩ | ⟨left, hrun, hallow⟩
    · obtain rfl := Option.some.inj hn
      have hcurrent : ({ s with queue := rest }.run job a lags).1.current = none :=
        hkept.current.trans hcur
      refine Or.inl ?_
      rw [hnone, Option.map_none, idle_eq hcurrent]
      refine ⟨hcurrent, hrest.kept hkept howner fun w hw => ?_, hkept, Prod.ext rfl hnone⟩
      rw [hcurrent] at hw
      cases hw
    · rw [hrun] at hn
      obtain rfl := Option.some.inj hn
      refine Or.inr ⟨left, ?_, rfl, hallow⟩
      refine ⟨hrest.owner, hrest.older, hrest.queued, fun w hw => ?_⟩
      obtain rfl := Option.some.inj hw
      exact ⟨hallow.permitted, hjob⟩
  · cases hn

/-- The write is back, and nothing is being written. -/
theorem wrote_cases {result : Except String Unit} (ho : Owned s)
    (hn : s.next instanceId decode (.wrote result lags) = some s') :
    ∃ w, s.current = some w ∧ s' = { s with current := none }.wrote w.job result lags ∧
      s'.current = none ∧ Owned s' := by
  obtain ⟨w, hw, hn⟩ := Option.bind_eq_some_iff.mp hn
  split at hn
  · cases hn
  · obtain rfl := Option.some.inj hn
    have hidle : Owned { s with current := none } := ⟨ho.owner, ho.older, ho.queued, nofun⟩
    have hkept := kept_wrote { s with current := none } w.job result lags
    have hnone : ({ s with current := none }.wrote w.job result lags).current = none :=
      hkept.current
    refine ⟨w, hw, rfl, hnone, hidle.kept hkept (owner_wrote hidle.owner _ _ _) fun w hw => ?_⟩
    rw [hnone] at hw
    cases hw

end Agend.Holder
