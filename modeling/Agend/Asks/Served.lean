import Agend.Asks.Terms

/-! Every request for an ask, and every start, keeps the contract. -/
namespace Agend.Asks

open Agend.Library Agend.Client Agend.Runtime Program
open Engine (Refusal invalid forbidden)

variable {encode : AskEntry → String} {s s' : World} {t : Turn} {p : Pending} {q : Ask}
  {rest : List Pending} {new : NewMessage} {row : AskRow} {c : Call} {α : Type} {id caller : String}

/-- The program keeps the contract from `s` on, and where it succeeds `Q` holds. -/
abbrev Serves (encode : AskEntry → String) (p : Routine encode α) (Q : α → World → Prop)
    (s : World) : Prop :=
  Holds (contract encode) p (After Q fun _ _ => True) s

theorem Serves.bind {β : Type} {p : Routine encode α} {f : α → Routine encode β}
    {Q : α → World → Prop} {R : β → World → Prop} (hp : Serves encode p Q s)
    (h : ∀ x s', Sound encode s' → Q x s' → Serves encode (f x) R s') :
    Serves encode (p >>= f) R s :=
  Holds.bind hp h fun _ _ _ _ => trivial

theorem Serves.check {β : Type} {b : Bool} {r : Refusal} {f : Unit → Routine encode β}
    {R : β → World → Prop} (h : b = true → Serves encode (f ()) R s) :
    Serves encode (Program.check b r >>= f) R s :=
  Holds.checkThen h fun _ => trivial

theorem Serves.orRaise {β : Type} {o : Option α} {r : Refusal} {f : α → Routine encode β}
    {R : β → World → Prop} (h : ∀ x, o = some x → Serves encode (f x) R s) :
    Serves encode (Program.orRaise o r >>= f) R s :=
  Holds.orRaiseThen h fun _ => trivial

theorem Serves.mono {p : Routine encode α} {Q R : α → World → Prop} (hp : Serves encode p Q s)
    (h : ∀ x s', Sound encode s' → Q x s' → R x s') : Serves encode p R s :=
  Holds.mono hp fun r s' hs' hr => match r with
    | .ok x => h x s' hs' hr
    | .error _ => trivial

/-! The calls. -/

/-- A call that changes no ask and makes no message. -/
theorem serves_quiet (hc : c.quiet = true) (hd : ∀ a, c.Due encode s a) :
    Serves encode (call encode c) (fun x s' => Aside encode s s' ∧ ∃ a w, Fair encode s c a ∧
      Aside encode s w ∧ w.perform encode a c = (.ok x, s')) s := by
  refine Holds.ask fun _ a ha => ⟨hd a, fun _ => ?_⟩
  have haside := ha.aside_exec hc
  rcases exec_cases encode s a c with ⟨r, he⟩ | he
  · change After _ _ (s.exec encode a c).1 (s.exec encode a c).2
    rw [he]
    trivial
  · change After _ _ (s.exec encode a c).1 (s.exec encode a c).2
    cases hr : (s.exec encode a c).1 with
    | error r => trivial
    | ok x =>
      refine ⟨haside, a, s.outside a.moves, ha, ha.aside, ?_⟩
      rw [← he, ← hr]

theorem serves_asks : Serves encode (call encode .asks) (fun x s' => x = s'.rows) s := by
  refine (serves_quiet (c := .asks) rfl fun _ => trivial).mono fun x s' _ h => ?_
  obtain ⟨-, a, w, -, -, hperform⟩ := h
  cases hperform
  rfl

theorem serves_newId : Serves encode (call encode .newId)
    (fun (x : String) s' => s'.asks.get ("A-" ++ x) = none) s := by
  refine (serves_quiet (c := .newId) rfl fun _ => trivial).mono fun x s' _ h => ?_
  obtain ⟨haside, a, w, ha, -, hperform⟩ := h
  cases hperform
  cases hget : s'.asks.get ("A-" ++ a.text) with
  | none => rfl
  | some q =>
    obtain ⟨hmem, hid⟩ := Table.get_eq_some.mp hget
    rw [haside.asks] at hmem
    exact absurd hid (ha.newId rfl q hmem)

theorem serves_pendingAnswers : Serves encode (call encode .pendingAnswers)
    (fun x s' => s'.asks = s.asks ∧ x = s'.pendingAnswers encode) s := by
  refine (serves_quiet (c := .pendingAnswers) rfl fun _ => trivial).mono fun x s' _ h => ?_
  obtain ⟨haside, a, w, -, -, hperform⟩ := h
  cases hperform
  exact ⟨haside.asks, rfl⟩

theorem serves_saveAsk {e : AskEntry} (h : Extends s row e) :
    Serves encode (call encode (.saveAsk row))
      (fun _ s' => ∃ q ∈ s'.asks.rows, q.thread = row.thread) s := by
  refine Holds.ask fun hs a ha => ⟨⟨e, h⟩, fun _ => ?_⟩
  change After _ _ (s.exec encode a _).1 (s.exec encode a _).2
  rcases exec_cases encode s a (.saveAsk row) with ⟨r, he⟩ | he
  · rw [he]
    trivial
  · rw [he]
    have hs' : Sound encode (s.outside a.moves) := Sound.aside hs ha.aside
    obtain ⟨q, hq⟩ := hs'.saved (h.aside ha.aside)
    refine ⟨q, ?_, hq.thread⟩
    change q ∈ ((s.outside a.moves).saveAsk row).asks.rows
    rw [hq.world]
    exact Table.mem_put.mpr (.inl rfl)

/-- The claim of the first answer that is not delivered. -/
theorem serves_claim (h : s.pendingAnswers encode = p :: rest) :
    Serves encode (call encode (.claimMessage p.message)) (fun (x : Claim) s' =>
      s'.asks = s.asks ∧ s'.pendingAnswers encode = p :: rest ∧
      ∃ m, s'.messages.get p.id = some m ∧ m.new = p.message ∧
        (x = .inserted ∧ m.state = .queued ∨ x = .existing m.state)) s := by
  refine Holds.ask fun hs (a : Answer) ha => ?_
  have hs' : Sound encode (s.outside a.moves) := Sound.aside hs ha.aside
  have hpending := ha.aside.pendingAnswers.trans h
  obtain ⟨t, ht⟩ := hs'.first hpending
  obtain ⟨hasks, hturns, m, hm, hnew, hfound⟩ := hs'.claim_answer ht.mem ht.outgoing
  have hne : ((s.outside a.moves).claim p.message).1 ≠ .different := by
    rcases hfound with ⟨hfound, -⟩ | hfound <;> simp [hfound]
  obtain ⟨u, hu⟩ := Sound.first hs h
  refine ⟨⟨u, p, hu, rfl, hne⟩, fun _ => ?_⟩
  change After _ _ (s.exec encode a _).1 (s.exec encode a _).2
  rcases exec_cases encode s a (.claimMessage p.message) with ⟨r, he⟩ | he
  · rw [he]
    trivial
  · rw [he]
    exact ⟨hasks.trans ha.aside.asks, (pendingAnswers_of_eq hasks hturns).trans hpending, m, hm,
      hnew, hfound⟩

/-- A call while the message of the first answer is stored. -/
theorem serves_stored (hc : c.quiet = true) (hd : ∀ a, c.Due encode s a)
    (h : s.pendingAnswers encode = p :: rest) (hs : Stored s p) :
    Serves encode (call encode c) (fun _ s' => s'.asks = s.asks ∧
      s'.pendingAnswers encode = p :: rest ∧ Stored s' p) s := by
  refine (serves_quiet hc hd).mono fun _ s' _ hx => ?_
  obtain ⟨haside, -⟩ := hx
  exact ⟨haside.asks, haside.pendingAnswers.trans h, haside.stored (h ▸ List.mem_cons_self) hs⟩

/-- Delivering the first answer stores its message. -/
theorem serves_deliver (h : s.pendingAnswers encode = p :: rest) :
    Serves encode (deliver encode p.instanceId p.id p.task p.body) (fun _ s' =>
      s'.asks = s.asks ∧ s'.pendingAnswers encode = p :: rest ∧ Stored s' p) s := by
  refine (serves_quiet (c := .members) rfl fun _ => trivial).bind fun members s₁ hs₁ h₁ => ?_
  obtain ⟨haside, -⟩ := h₁
  have hpending₁ := haside.pendingAnswers.trans h
  refine Serves.orRaise fun member _ => ?_
  refine (serves_claim hpending₁).bind fun (claim : Claim) s₂ hs₂ h₂ => ?_
  obtain ⟨hasks₂, hpending₂, m, hm, hnew, hclaim⟩ := h₂
  have hasks := hasks₂.trans haside.asks
  have hstored : Stored s₂ p := ⟨m, hm, hnew⟩
  have hdifferent : claim ≠ .different := by
    rcases hclaim with ⟨rfl, -⟩ | rfl <;> simp
  have haccept : ∀ (receipt : Receipt) s₃, s₃.asks = s₂.asks →
      s₃.pendingAnswers encode = p :: rest → Stored s₃ p → Serves encode
      (call encode (.advanceMessage p.id receipt.state receipt.backendMessageId)) (fun _ s' =>
        s'.asks = s.asks ∧ s'.pendingAnswers encode = p :: rest ∧ Stored s' p) s₃ := by
    intro receipt s₃ hasks₃ hpending₃ hstored₃
    refine (serves_stored (c := .advanceMessage p.id receipt.state receipt.backendMessageId)
      rfl (fun _ => trivial) hpending₃ hstored₃).mono fun _ s₄ _ h₄ => ?_
    exact ⟨h₄.1.trans (hasks₃.trans hasks), h₄.2⟩
  rw [if_neg hdifferent]
  split
  · exact Holds.pure ⟨hasks, hpending₂, hstored⟩
  · rename_i hopen
    have hstate : m.state ≠ .sent ∧ m.state ≠ .confirmed := by
      rcases hclaim with ⟨rfl, hq⟩ | rfl
      · simp [hq]
      · simpa using hopen
    split
    · exact haccept ⟨none, .sent⟩ s₂ rfl hpending₂ hstored
    · obtain ⟨t, ht⟩ := hs₂.first hpending₂
      refine (serves_stored (c := .deliver p.instanceId p.message) rfl
        (fun _ => ⟨t, p, ht, rfl, rfl, m, hm, hnew, hstate.1, hstate.2⟩) hpending₂ hstored).bind ?_
      intro receipt s₃ _ h₃
      exact haccept receipt s₃ h₃.1 h₃.2.1 h₃.2.2

theorem serves_mark (h : s.pendingAnswers encode = p :: rest) (hp : Stored s p) :
    Serves encode (call encode (.markAnswerSent p.seq))
      (fun _ s' => s'.asks = s.asks ∧ s'.pendingAnswers encode = rest) s := by
  refine Holds.ask fun hs a ha => ?_
  obtain ⟨t, ht⟩ := Sound.first hs h
  refine ⟨⟨t, p, ht, rfl, hp⟩, fun _ => ?_⟩
  change After _ _ (s.exec encode a _).1 (s.exec encode a _).2
  rcases exec_cases encode s a (.markAnswerSent p.seq) with ⟨r, he⟩ | he
  · rw [he]
    trivial
  · rw [he]
    have hs' : Sound encode (s.outside a.moves) := Sound.aside hs ha.aside
    exact ⟨ha.aside.asks, hs'.pendingAnswers_mark (ha.aside.pendingAnswers.trans h)⟩

/-- Handing over all answers leaves none. -/
theorem serves_deliverAnswers : Serves encode (deliverAnswers encode)
    (fun _ s' => s'.asks = s.asks ∧ s'.pendingAnswers encode = []) s := by
  refine serves_pendingAnswers.bind fun pending s₁ _ h₁ => ?_
  obtain ⟨hasks, rfl⟩ := h₁
  refine Holds.forEach
    (P := fun rest (s' : World) => s'.asks = s.asks ∧ s'.pendingAnswers encode = rest) ?_ ⟨hasks, rfl⟩
  intro p rest s₂ _ h₂
  obtain ⟨hasks₂, hpending₂⟩ := h₂
  refine (serves_deliver hpending₂).bind fun _ s₃ _ h₃ => ?_
  obtain ⟨hasks₃, hpending₃, hstored₃⟩ := h₃
  refine (serves_mark hpending₃ hstored₃).mono fun _ s₄ _ h₄ => ?_
  exact ⟨h₄.1.trans (hasks₃.trans hasks₂), h₄.2⟩

/-! The requests. -/

/-- A row that was read is one that is stored. -/
theorem mem_rows (hs : Sound encode s) (h : row ∈ s.rows) : ∃ q,
    s.asks.get row.thread.askId = some q ∧ row = ⟨q.instanceId, q.created, q.thread⟩ := by
  obtain ⟨q, hq, rfl⟩ := List.mem_map.mp h
  have hmem := Table.mem_values.mp hq
  exact ⟨q, Table.get_eq_some.mpr ⟨hmem, (hs.keyed q hmem).1.symm⟩, rfl⟩

/-- One more entry of a stored thread. -/
theorem extends_push (hs : Sound encode s) (hq : s.asks.get row.thread.askId = some q)
    (hrow : row = ⟨q.instanceId, q.created, q.thread⟩) {last e : AskEntry}
    (hlast : row.thread.entries.getLast? = some last) (he : last.Before e) :
    Extends s (row.push e) e := by
  obtain ⟨hmem, -⟩ := Table.get_eq_some.mp hq
  have hentries : s.entriesOf row.thread.askId = row.thread.entries := by
    rw [entriesOf_of_get hq, hrow]
  have hdialogue : Dialogue row.thread.entries := by
    rw [hrow]
    exact hs.dialogue q hmem
  refine ⟨?_, hdialogue.concat hlast he, fun q' hq' => ?_⟩
  · change row.thread.entries ++ [e] = s.entriesOf row.thread.askId ++ [e]
    rw [hentries]
  · change s.asks.get row.thread.askId = some q' at hq'
    cases hq.symm.trans hq'
    rw [hrow]
    exact ⟨rfl, (hs.keyed q hmem).2.symm⟩

/-- Saving a thread and showing it, when its last entry is no answer. -/
theorem serves_push {e : AskEntry} (h : Extends s (row.push e) e) (he : e.isAnswer = false) :
    Serves encode (do
      call encode (.saveAsk (row.push e))
      call encode (.publish (row.push e).thread)
      pure CommandResult.accepted) (fun _ _ => True) s := by
  refine (serves_saveAsk h).bind fun _ s₁ _ h₁ => ?_
  obtain ⟨q, hq, hthread⟩ := h₁
  refine (serves_quiet (c := .publish (row.push e).thread) rfl
    fun _ => ⟨q, hq, hthread, fun hlast => ?_⟩).bind fun _ _ _ _ => Holds.pure trivial
  obtain ⟨e', hlast, hanswer⟩ := hlast
  have : (row.push e).thread.entries.getLast? = some e := List.getLast?_concat
  rw [this] at hlast
  cases hlast
  rw [he] at hanswer
  cases hanswer

/-- An open ask of the caller. -/
structure Owned (s : World) (caller : String) (row : AskRow) : Prop where
  stored : ∃ q, s.asks.get row.thread.askId = some q ∧ row = ⟨q.instanceId, q.created, q.thread⟩
  isOpen : row.thread.isResolved = false
  owner : row.instanceId = caller

theorem serves_ownedAsk : Serves encode (ownedAsk encode caller id)
    (fun row s' => Owned s' caller row) s := by
  refine serves_asks.bind fun rows s₁ hs₁ h₁ => ?_
  subst h₁
  refine Serves.orRaise fun row hrow => Serves.check fun hcaller => Holds.pure ?_
  have hfound := List.find?_some hrow
  simp only [Bool.and_eq_true, decide_eq_true_eq, Bool.not_eq_true'] at hfound
  exact ⟨mem_rows hs₁ (List.mem_of_find?_eq_some hrow), hfound.2, of_decide_eq_true hcaller⟩

/-- An open thread takes a resolution. -/
theorem Owned.resolution (h : Owned s caller row) (hs : Sound encode s) (summary : String) :
    Extends s (row.push (.resolution caller summary)) (.resolution caller summary) := by
  obtain ⟨q, hq, hrow⟩ := h.stored
  have hdialogue : Dialogue row.thread.entries := by
    rw [hrow]
    exact hs.dialogue q (Table.get_eq_some.mp hq).1
  have hne := hdialogue.ne_nil
  have hlast := List.getLast?_eq_some_getLast hne
  refine extends_push hs hq hrow hlast ?_
  cases hcase : row.thread.entries.getLast hne with
  | resolution sender text =>
    exact absurd hcase (not_resolution_of_open h.isOpen hlast sender text)
  | unknown => exact absurd hcase (hdialogue.known (List.getLast_mem hne))
  | _ => trivial

theorem Owned.followUp (h : Owned s caller row) (hs : Sound encode s) (question : String)
    (options : List String) (hanswer : row.thread.entries.getLast?.any (·.isAnswer) = true) :
    Extends s (row.push (.followUp caller question options))
      (.followUp caller question options) := by
  obtain ⟨q, hq, hrow⟩ := h.stored
  cases hlast : row.thread.entries.getLast? with
  | none =>
    rw [hlast] at hanswer
    cases hanswer
  | some last =>
    rw [hlast] at hanswer
    refine extends_push hs hq hrow hlast ?_
    cases last with
    | answer => trivial
    | _ => cases hanswer

theorem serves_agent {caller : Option String} {now : Nat} {command : AgentCommand} :
    Serves encode (agent encode caller now command) (fun _ _ => True) s := by
  refine Serves.orRaise fun caller _ => ?_
  refine (serves_quiet (c := .instance_ caller) rfl fun _ => trivial).bind fun _ _ _ _ => ?_
  refine Serves.check fun _ => ?_
  cases command with
  | ask question options =>
    refine Serves.check fun _ => ?_
    refine (serves_quiet (c := .heldTask caller) rfl fun _ => trivial).bind fun task _ _ _ => ?_
    refine serves_newId.bind fun (text : String) s₂ _ hnone => ?_
    refine (serves_saveAsk (e := .question caller question options)
      ⟨?_, .start _ _ _, ?_⟩).bind fun _ _ _ _ => Holds.pure trivial
    · rw [entriesOf_of_none hnone]
      rfl
    · intro q hq
      cases hnone.symm.trans hq
  | askFollowUp askId question options =>
    refine serves_ownedAsk.bind fun row s₂ hs₂ h₂ => Serves.check fun hlast => ?_
    exact serves_push (h₂.followUp hs₂ question options (Bool.and_eq_true_iff.mp hlast).2) rfl
  | askResolve askId summary =>
    refine serves_ownedAsk.bind fun row s₂ hs₂ h₂ => Serves.check fun _ => ?_
    exact serves_push (h₂.resolution hs₂ summary) rfl

theorem serves_answer {data : AnswerAskData} :
    Serves encode (answer encode data) (fun _ _ => True) s := by
  refine serves_asks.bind fun rows s₁ hs₁ h₁ => ?_
  subst h₁
  refine Serves.orRaise fun row hrow => Serves.check fun haccepts => ?_
  obtain ⟨q, hq, heq⟩ := mem_rows hs₁ (List.mem_of_find?_eq_some hrow)
  obtain ⟨last, hlast, hbefore⟩ := accepts_eq_true haccepts
  refine (serves_saveAsk (extends_push hs₁ hq heq hlast
    (hbefore "operator" data.source))).bind fun _ s₂ _ h₂ => ?_
  obtain ⟨q', hq', hthread⟩ := h₂
  refine serves_deliverAnswers.bind fun _ s₃ _ h₃ => ?_
  obtain ⟨hasks, hnone⟩ := h₃
  exact (serves_quiet (c := .publish _) rfl
    fun _ => ⟨q', hasks ▸ hq', hthread, fun _ => hnone⟩).bind fun _ _ _ _ => Holds.pure trivial

theorem serves_guarded {expected : Option String} {data : AnswerAskData} :
    Serves encode (guarded encode expected data) (fun _ _ => True) s := by
  refine (serves_quiet (c := .current) rfl fun _ => trivial).bind fun _ _ _ _ => ?_
  exact Serves.check fun _ => Serves.check fun _ => serves_answer

theorem serves_reply {p : Routine encode CommandResult}
    (hp : Serves encode p (fun _ _ => True) s) :
    Serves encode (reply encode p) (fun _ _ => True) s := by
  refine Holds.attemptThen hp fun result s' _ _ => ?_
  exact (serves_quiet (c := .send result) rfl fun _ => trivial).mono fun _ _ _ _ => trivial

theorem serves_serve {request : Request} :
    Serves encode (serve encode request) (fun _ _ => True) s := by
  have hrespond : Serves encode (respond encode request) (fun _ _ => True) s := by
    cases request with
    | agent => exact serves_reply serves_agent
    | answer => exact serves_reply serves_answer
    | guarded => exact serves_reply serves_guarded
    | other => exact Holds.pure trivial
  refine hrespond.bind fun _ s' _ _ => ?_
  exact Holds.attemptThen (serves_quiet (c := .otherwise) rfl fun _ => trivial)
    fun _ _ _ _ => Holds.pure trivial

/-- A start that succeeds has handed over every answer. -/
theorem serves_boot : Serves encode (boot encode)
    (fun _ s' => s'.pendingAnswers encode = []) s := by
  refine (serves_quiet (c := .otherwise) rfl fun _ => trivial).bind fun _ s₁ _ _ => ?_
  refine serves_deliverAnswers.bind fun _ s₂ _ h₂ => ?_
  refine (serves_quiet (c := .otherwise) rfl fun _ => trivial).mono fun _ s₃ _ h₃ => ?_
  exact h₃.1.pendingAnswers.trans h₂.2

/-- Every program of the engine for asks keeps the contract. -/
theorem keeps : (server encode).Keeps (contract encode) (fun _ => True) fun _ _ => True where
  keep _ _ _ hs ha hd := (Sound.exec hs ha hd).1
  start _ _ _ := Holds.mono serves_boot fun _ _ _ _ _ => trivial
  serve _ _ _ _ _ := Holds.mono serves_serve fun _ _ _ _ => trivial

/-- A step of the server. -/
abbrev Step (encode : AskEntry → String) :=
  Transition (Process (interface encode)) (Signal (interface encode) Request)
    (Trail (interface encode))

/-- The runs of a server that starts on an empty store. -/
abbrev Run (encode : AskEntry → String) : List (Step encode) → Process (interface encode) → Prop :=
  ((server encode).machine (· = World.empty)).Run

def bodyText : AskEntry → String
  | .answer _ _ (.choice chosen) => chosen
  | _ => ""

abbrev Signals := List (Signal (interface bodyText) Request)

def booted (answers : List Answer) : Signals :=
  .start :: (answers.map (fun a => .answer a) ++ [.finish])

def served (request : Request) (answers : List Answer) : Signals :=
  .serve request :: (answers.map (fun a => .answer a) ++ [.finish])

def staff : Answer := { members := [⟨"dev-1", "push"⟩] }

def retried : List (Step bodyText) × Process (interface bodyText) :=
  (server bodyText).play [] ⟨.empty, .down⟩ (booted [{}, {}, {}] ++
    served (.agent (some "dev-1") 7 (.ask "Which way?" ["left", "right"]))
      [{}, { task := some "T-1" }, { text := "f00d" }, {}, {}, {}] ++
    served (.answer ⟨"r-1", "A-f00d", .tui, .choice "left"⟩)
      [{}, {}, {}, staff, {}, { fault := some "codex is gone" }, {}, {}] ++
    .crash :: booted [{}, {}, staff, {}, {}, {}, {}, {}])

end Agend.Asks
