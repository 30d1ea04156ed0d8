import Agend.OneShot.Staged

/-! The staged client reads what the protocol's types read. -/
namespace Agend.OneShot.Staged

open Library
open Agend.Client (AskReply AskEntry AskThread AttentionRequiredData FleetView)

section

variable {finite : String → Bool} {v : Json} {ms : Members}

theorem map_eq {α β : Type} (x : Option α) (f : α → β) : x.map f = x.bind fun a => some (f a) := by
  cases x with
  | none => rfl
  | some a => rfl

theorem bind_congr {α β : Type} {x : Option α} {f g : α → Option β}
    (h : ∀ a, x = some a → f a = g a) : x.bind f = x.bind g := by
  cases x with
  | none => rfl
  | some a => exact h a rfl

theorem values_of_name {tag name : String} {s : Source}
    (h : readField tag Serde.string.read none s ms = some name) : values tag ms = [.str name] := by
  unfold readField at h
  split at h
  next => cases h
  next v heq =>
    cases v with
    | str text =>
      cases h
      exact heq
    | _ => cases h
  next => cases h

theorem lookup_of_ne {γ : Type} {name : String} {table : List (String × γ)}
    (h : ∀ p ∈ table, name ≠ p.1) : table.lookup name = none := by
  induction table with
  | nil => rfl
  | cons p table ih =>
    have hne : (name == p.1) = false := beq_false_of_ne (h p List.mem_cons_self)
    rw [List.lookup_cons, hne]
    exact ih fun q hq => h q (List.mem_cons_of_mem p hq)

theorem answer_eq (hplain : askReply.Plain v) (hreadable : v.readable finite = true) :
    answer finite v = askReply.read (.text finite) v := by
  cases v with
  | obj ms =>
    refine Eq.trans ?_ (Serde.read_tagged hplain hreadable).symm
    simp only [answer, parse, ReplyTag.read, readStruct, Option.bind_eq_bind, Option.pure_def,
      Option.bind_assoc, Option.bind_some]
    congr 1
    funext name
    split
    next => simp [Choice.read, readStruct, map_eq, Option.bind_assoc]
    next => simp [Text.read, readStruct, List.lookup_cons, map_eq, Option.bind_assoc]
    next hchoice htext =>
      rw [lookup_of_ne]
      simp only [List.forall_mem_cons]
      exact ⟨hchoice, htext, List.forall_mem_nil _⟩
  | arr items => exact hplain.elim
  | null => rfl
  | bool b => rfl
  | num text => rfl
  | str s => rfl

theorem entry_eq (hplain : askEntry.Plain v) (hreadable : v.readable finite = true) :
    entry finite v = askEntry.read (.text finite) v := by
  cases v with
  | obj ms =>
    refine Eq.trans ?_ (Serde.read_tagged hplain hreadable).symm
    simp only [entry, parse, Tag.read, readStruct, Option.bind_eq_bind, Option.pure_def,
      Option.bind_assoc, Option.bind_some]
    apply bind_congr
    intro name hname
    have hfields := hplain.2.2 name
    split
    next => simp [Question.read, readStruct, map_eq, Option.bind_assoc]
    next => simp [Question.read, readStruct, List.lookup_cons, map_eq, Option.bind_assoc]
    next =>
      have hreply : (readField "reply" readRaw none (.text finite) ms).bind (answer finite) =
          readField "reply" askReply.read none (.text finite) ms := by
        apply readField_bind
        intro v hv
        have hvplain := (hfields _ (values_of_name hname) rfl).2.2 v hv
        exact answer_eq hvplain (readable_of_values hreadable hv)
      simp [Answer.read, readStruct, List.lookup_cons, map_eq, Option.bind_assoc, ← hreply]
    next => simp [Resolution.read, readStruct, List.lookup_cons, map_eq, Option.bind_assoc]
    next h1 h2 h3 h4 =>
      rw [lookup_of_ne]
      simp only [List.forall_mem_cons]
      exact ⟨h1, h3, h2, h4, List.forall_mem_nil _⟩
  | arr items => exact hplain.elim
  | null => rfl
  | bool b => rfl
  | num text => rfl
  | str s => rfl

theorem thread_eq (hplain : askThread.Plain v) (hreadable : v.readable finite = true) :
    thread finite v = askThread.read (.text finite) v := by
  cases v with
  | obj ms =>
    have hentries : (readField "entries" (readVec readRaw) none (.text finite) ms).bind
          (List.mapM (entry finite)) =
        readField "entries" (readVec askEntry.read) none (.text finite) ms := by
      apply readField_bind
      intro v hv
      have hvplain := hplain.2.2 v hv
      have hvreadable := readable_of_values hreadable hv
      apply readVec_bind
      intro items heq w hw
      subst heq
      exact entry_eq (hvplain w hw) (Json.readable_arr.mp hvreadable w hw)
    simp [thread, parse, Thread.read, readStruct, askThread, map_eq, Option.bind_assoc, ← hentries]
  | arr items => exact hplain.elim
  | null => rfl
  | bool b => rfl
  | num text => rfl
  | str s => rfl

theorem item_eq (hplain : attentionRequiredData.Plain v) (hreadable : v.readable finite = true) :
    (Attention.read (.text finite) v).bind (item finite) =
      attentionRequiredData.read (.text finite) v := by
  cases v with
  | obj ms =>
    have hask : (readField "ask" (readOption readRaw) (some none) (.text finite) ms).bind
          (askOf finite) =
        readField "ask" (readOption askThread.read) (some none) (.text finite) ms := by
      apply readField_bind
      intro v hv
      have hvplain := hplain.2.2.1 v hv
      have hvreadable := readable_of_values hreadable hv
      by_cases hnull : v = .null
      · rw [hnull]
        rfl
      · have hsame := congrArg (Option.map some) (thread_eq (hvplain hnull) hvreadable)
        cases v with
        | null => exact absurd rfl hnull
        | _ => exact hsame
    refine Eq.trans ?_ (Serde.read_struct _ _ _ _).symm
    dsimp only [Fields.read_map, Fields.read_and, Fields.read_required, Fields.read_optional,
      Fields.read_skipped, Fields.read_skippedEmpty, Serde.read_option, Serde.read_vec,
      Attention.read, readStruct, Option.bind_eq_bind, Option.pure_def]
    rw [← hask]
    generalize readField "reason" _ _ _ _ = reason, readField "task_id" _ _ _ _ = taskId,
      readField "ask" (readOption readRaw) _ _ _ = ask,
      readField "recap" _ _ _ _ = recap, readField "attention_id" _ _ _ _ = attentionId,
      readField "unblocks" _ _ _ _ = unblocks, readField "waiting_since_unix_ms" _ _ _ _ = since,
      readField "if_ignored" _ _ _ _ = ifIgnored, readField "actions" _ _ _ _ = actions,
      readField "instance_id" _ _ _ _ = instanceId
    rcases reason with _ | reason
    · rfl
    rcases taskId with _ | taskId
    · rfl
    rcases ask with _ | ask
    · rfl
    -- The ask is read third; it is made a thread when the rest has been read.
    dsimp only [Option.bind_some]
    rcases recap with _ | recap
    · cases askOf finite ask <;> rfl
    rcases attentionId with _ | attentionId
    · cases askOf finite ask <;> rfl
    rcases unblocks with _ | unblocks
    · cases askOf finite ask <;> rfl
    rcases since with _ | since
    · cases askOf finite ask <;> rfl
    rcases ifIgnored with _ | ifIgnored
    · cases askOf finite ask <;> rfl
    rcases actions with _ | actions
    · cases askOf finite ask <;> rfl
    rcases instanceId with _ | instanceId
    · cases askOf finite ask <;> rfl
    dsimp only [Option.bind_some, item, Option.bind_eq_bind]
    cases askOf finite ask <;> rfl
  | arr items => exact hplain.elim
  | null => rfl
  | bool b => rfl
  | num text => rfl
  | str s => rfl

theorem view_eq (hplain : fleetView.Plain v) (hreadable : v.readable finite = true) :
    (View.read (.text finite) v).bind (view finite) = fleetView.read (.text finite) v := by
  cases v with
  | obj ms =>
    have hattention : (readField "attention" (readVec Attention.read) none (.text finite) ms).bind
          (List.mapM (item finite)) =
        readField "attention" (readVec attentionRequiredData.read) none (.text finite) ms := by
      apply readField_bind
      intro v hv
      have hvplain := hplain.2.2.2.2.2 v hv
      have hvreadable := readable_of_values hreadable hv
      apply readVec_bind
      intro items heq w hw
      subst heq
      exact item_eq (hvplain w hw) (Json.readable_arr.mp hvreadable w hw)
    refine Eq.trans ?_ (Serde.read_struct _ _ _ _).symm
    simp only [Fields.read_map, Fields.read_and, Fields.read_required, Fields.read_skippedEmpty,
      Serde.read_vec, View.read, readStruct, Option.bind_eq_bind, Option.pure_def, map_eq,
      Option.bind_assoc, Option.bind_some, ← hattention]
    rfl
  | arr items => exact hplain.elim
  | null => rfl
  | bool b => rfl
  | num text => rfl
  | str s => rfl

theorem reply_eq (hplain : fleetData.Plain v) (hreadable : v.readable finite = true) :
    fleet finite (some v) = fleetData.read (.text finite) v := by
  cases v with
  | obj ms =>
    have hfleet : (readField "fleet" View.read none (.text finite) ms).bind (view finite) =
        readField "fleet" fleetView.read none (.text finite) ms := by
      apply readField_bind
      intro v hv
      exact view_eq (hplain.2 v hv) (readable_of_values hreadable hv)
    refine Eq.trans ?_ (Serde.read_struct _ _ _ _).symm
    simp only [Fields.read_map, Fields.read_and, Fields.read_required, fleet, data, parse,
      Reply.read, readStruct, Option.bind_eq_bind, Option.pure_def, map_eq, Option.bind_assoc,
      Option.bind_some, ← hfleet]
  | arr items => exact hplain.elim
  | null => rfl
  | bool b => rfl
  | num text => rfl
  | str s => rfl

variable (finite) in
/-- What is kept of a key is what its data is read from. -/
theorem kept (hkeys : (ms.map Prod.fst).Nodup) (key : String) :
    ∃ raw, readField key (readOption readRaw) (some none) (.text finite) ms = some raw ∧
      (∀ {α : Type} (read : Reads α), read (.text finite) .null = none →
        data finite read raw = readField key read none (.text finite) ms) ∧
      ∀ {α : Type} (read : Reads α), optionalData finite (readOption read) raw =
        readField key (readOption read) (some none) (.text finite) ms := by
  cases values_of_nodup hkeys key with
  | inl hnone =>
    refine ⟨none, ?_, ?_, ?_⟩
    · rw [readField, hnone]
    · intro α read _
      rw [readField, hnone]
      rfl
    · intro α read
      rw [readField, hnone]
      rfl
  | inr hone =>
    obtain ⟨v, hv⟩ := hone
    by_cases hnull : v = .null
    · subst hnull
      refine ⟨none, readField_eq hv, ?_, ?_⟩
      · intro α read h
        rw [readField_eq hv, h]
        rfl
      · intro α read
        rw [readField_eq hv]
        rfl
    · refine ⟨some v, ?_, ?_, ?_⟩
      · rw [readField_eq hv]
        cases v with
        | null => exact absurd rfl hnull
        | _ => rfl
      · intro α read _
        rw [readField_eq hv]
        rfl
      · intro α read
        rw [readField_eq hv]
        rfl

theorem result_eq (hplain : commandResult.Plain v) (hreadable : v.readable finite = true) :
    (parse finite CommandEnvelope.read v).bind (result finite) =
      commandResult.read (.text finite) v := by
  cases v with
  | obj ms =>
    obtain ⟨raw, hraw, hdata, hoptional⟩ := kept finite hplain.1 "data"
    obtain ⟨rawText, hrawText, htext, _⟩ := kept finite hplain.1 "text"
    refine Eq.trans ?_ (Serde.read_tagged hplain hreadable).symm
    simp only [parse, CommandEnvelope.read, readStruct, Option.bind_eq_bind, Option.pure_def,
      Option.bind_assoc, Option.bind_some, hraw, hrawText]
    congr 1
    funext name
    unfold result
    dsimp only
    split
    next => exact congrArg (Option.map CommandResult.text) (htext Serde.string.read rfl)
    next => rfl
    next => exact congrArg (Option.map CommandResult.telegramPairing) (hoptional _)
    next => exact congrArg (Option.map CommandResult.setupDiagnostic) (hdata _ rfl)
    next => exact congrArg (Option.map CommandResult.backendDiagnostic) (hdata _ rfl)
    next => exact congrArg (Option.map CommandResult.backendSwitch) (hoptional _)
    next => exact congrArg (Option.map CommandResult.messageOutcome) (hdata _ rfl)
    next => exact congrArg (Option.map CommandResult.driverStatus) (hdata _ rfl)
    next => exact congrArg (Option.map CommandResult.messageDelivery) (hoptional _)
    next => exact congrArg (Option.map CommandResult.status) (hdata _ rfl)
    next => exact congrArg (Option.map CommandResult.messages) (hdata _ rfl)
    next => exact congrArg (Option.map CommandResult.taskCreated) (hdata _ rfl)
    next => exact congrArg (Option.map CommandResult.askCreated) (hdata _ rfl)
    next => exact congrArg (Option.map CommandResult.instanceAdded) (hdata _ rfl)
    next => exact congrArg (Option.map CommandResult.restarting) (hdata _ rfl)
    next =>
      rw [lookup_of_ne]
      simp only [List.forall_mem_cons]
      and_intros <;> first | assumption | nofun
  | arr items => exact hplain.elim
  | null => rfl
  | bool b => rfl
  | num text => rfl
  | str s => rfl

theorem command_eq (hplain : clientCommandResultData.Plain v)
    (hreadable : v.readable finite = true) :
    command finite v = clientCommandResultData.read (.text finite) v := by
  cases v with
  | obj ms =>
    have hresult : (readField "result" readRaw none (.text finite) ms).bind
          (fun v => (parse finite CommandEnvelope.read v).bind (result finite)) =
        readField "result" commandResult.read none (.text finite) ms := by
      apply readField_bind
      intro v hv
      exact result_eq (hplain.2 v hv) (readable_of_values hreadable hv)
    refine Eq.trans ?_ (Serde.read_struct _ _ _ _).symm
    simp only [Fields.read_map, Fields.read_and, Fields.read_required, command, parse,
      CommandReply.read, readStruct, Option.bind_eq_bind, Option.pure_def, map_eq,
      Option.bind_assoc, Option.bind_some, ← hresult]
  | arr items => exact hplain.elim
  | null => rfl
  | bool b => rfl
  | num text => rfl
  | str s => rfl

section

variable {ρ : Type} {pushed : Pushed → Serde ρ}

theorem response_eq (hplain : (clientResponse pushed).Plain v)
    (hreadable : v.readable finite = true)
    (hpushed : ∀ kind : Pushed, v.get? "type" ≠ some (.str kind.name)) :
    response finite v = (clientResponse pushed).read (.text finite) v := by
  cases v with
  | obj ms =>
    obtain ⟨raw, hraw, hdata, _⟩ := kept finite hplain.1 "data"
    have hstaged : ∀ {α : Type} (staged : Json → Option α) (d : Serde α),
        staged .null = none →
        (∀ v, values "data" ms = [v] → staged v = d.read (.text finite) v) →
        raw.bind staged = readField "data" d.read none (.text finite) ms := by
      intro α staged d hnull hsame
      exact (hdata (fun _ => staged) hnull).trans (readField_congr hsame)
    have hdataReadable : ∀ v, values "data" ms = [v] → v.readable finite = true := by
      intro v hv
      exact readable_of_values hreadable hv
    refine Eq.trans ?_ (Serde.read_tagged hplain hreadable).symm
    simp only [response, parse, Envelope.read, readStruct, Option.bind_eq_bind, Option.pure_def,
      Option.bind_assoc, Option.bind_some, hraw]
    apply bind_congr
    intro name hname
    have hvalues := values_of_name hname
    have hfields := hplain.2.2 name
    split
    next => exact congrArg (Option.map ClientResponse.claude) (hdata _ rfl)
    next => exact congrArg (Option.map ClientResponse.hello) (hdata _ rfl)
    next =>
      have hfleet : fleet finite raw = raw.bind fun v => fleet finite (some v) := by
        cases raw with
        | none => rfl
        | some v => rfl
      rw [hfleet]
      apply congrArg (Option.map ClientResponse.fleet)
      apply hstaged _ fleetData rfl
      intro v hv
      exact reply_eq (hfields _ hvalues rfl v hv) (hdataReadable v hv)
    next => exact congrArg (Option.map ClientResponse.error) (hdata _ rfl)
    next =>
      apply congrArg (Option.map ClientResponse.commandResult)
      apply hstaged _ clientCommandResultData rfl
      intro v hv
      exact command_eq (hfields _ hvalues rfl v hv) (hdataReadable v hv)
    next hclaude hhello hfleet herror hcommand =>
      have hother : ∀ kind : Pushed, name ≠ kind.name := by
        intro kind heq
        apply hpushed kind
        rw [← heq, get?_obj, hvalues]
        rfl
      rw [lookup_of_ne]
      simp only [List.forall_mem_cons]
      exact ⟨hclaude, hhello, hcommand, herror, hother .event, hother .terminalSnapshot,
        hother .terminalBytes, hother .terminalFrame, hother .terminalControlAck,
        hother .terminalControlChanged, hfleet, List.forall_mem_nil _⟩
  | arr items => exact hplain.elim
  | null => rfl
  | bool b => rfl
  | num text => rfl
  | str s => rfl

theorem response_pushed {kind : Pushed} (hkeys : (ms.map Prod.fst).Nodup)
    (hkind : (Json.obj ms).get? "type" = some (.str kind.name)) :
    response (ρ := ρ) finite (.obj ms) = some .unknown := by
  obtain ⟨raw, hraw, _⟩ := kept finite hkeys "data"
  have hname : readField "type" Serde.string.read none (.text finite) ms = some kind.name :=
    readField_eq (values_of_get? hkeys hkind)
  simp only [response, parse, Envelope.read, readStruct, Option.bind_eq_bind, Option.pure_def,
    Option.bind_some, hraw, hname]
  cases kind <;> rfl

/-- The tags of the replies that a one-shot command reads. -/
def waited : List String := ["claude", "hello", "command_result", "error", "fleet", "unknown"]

theorem name_not_mem_waited (kind : Pushed) : kind.name ∉ waited := by
  cases kind <;> decide

variable (pushed) in
theorem get?_type_write {r : ClientResponse ρ} (hwaited : ∀ kind data, r ≠ .pushed kind data) :
    ∃ name ∈ waited, ((clientResponse pushed).write r).get? "type" = some (.str name) := by
  cases r with
  | claude data => exact ⟨"claude", by decide, rfl⟩
  | hello data => exact ⟨"hello", by decide, rfl⟩
  | commandResult data => exact ⟨"command_result", by decide, rfl⟩
  | error data => exact ⟨"error", by decide, rfl⟩
  | pushed kind data => exact absurd rfl (hwaited kind data)
  | fleet data => exact ⟨"fleet", by decide, rfl⟩
  | unknown => exact ⟨"unknown", by decide, rfl⟩

theorem response_write {r : ClientResponse ρ} (hvalid : (clientResponse pushed).Valid r)
    (hwaited : ∀ kind data, r ≠ .pushed kind data) :
    response finite ((clientResponse pushed).write r) = some r := by
  obtain ⟨name, hmem, hname⟩ := get?_type_write pushed hwaited
  rw [response_eq ((clientResponse pushed).plain hvalid)
    ((clientResponse pushed).readable finite hvalid)]
  · exact (clientResponse pushed).round _ hvalid
  · intro kind heq
    rw [hname] at heq
    cases heq
    exact name_not_mem_waited kind hmem

end

end

/-! What the staged client makes of a reply. -/

/-- A plain reply has no key twice beside a tag, no variant's index for its name and no empty object
for no data. Its own type may be a number, and its numbers are those that a parser can hold. -/
theorem decoder_exact {ρ : Type} (pushed : Pushed → Serde ρ) (finite : String → Bool) :
    (∀ v, (clientResponse pushed).Plain v → v.readable finite = true →
      (∀ kind : Pushed, v.get? "type" ≠ some (.str kind.name)) →
      response finite v = (clientResponse pushed).read (.text finite) v) ∧
    (∀ (ms : Members) (text : String), (ms.map Prod.fst).Nodup →
      (Json.obj ms).get? "type" = some (.num text) →
      response (ρ := ρ) finite (.obj ms) = none ∧
        (clientResponse pushed).read (.text finite) (.obj ms) = none) ∧
    (∀ (ms : Members) (kind : Pushed), (ms.map Prod.fst).Nodup →
      (Json.obj ms).get? "type" = some (.str kind.name) →
      response (ρ := ρ) finite (.obj ms) = some .unknown) ∧
    ∀ r, (clientResponse pushed).Valid r → (∀ kind data, r ≠ .pushed kind data) →
      response finite ((clientResponse pushed).write r) = some r := by
  have hnumber : ∀ (ms : Members) (text : String), (ms.map Prod.fst).Nodup →
      (Json.obj ms).get? "type" = some (.num text) →
      response (ρ := ρ) finite (.obj ms) = none ∧
        (clientResponse pushed).read (.text finite) (.obj ms) = none := by
    intro ms text hkeys hget
    have hvalues := values_of_get? hkeys hget
    constructor
    · simp only [response, parse, Envelope.read, readStruct, Option.bind_eq_bind,
        Option.pure_def, readField_eq hvalues]
      rfl
    · exact Serde.read_tagged_number hvalues
  have hpushed : ∀ (ms : Members) (kind : Pushed), (ms.map Prod.fst).Nodup →
      (Json.obj ms).get? "type" = some (.str kind.name) →
      response (ρ := ρ) finite (.obj ms) = some .unknown :=
    fun ms kind hkeys hkind => response_pushed hkeys hkind
  exact ⟨fun v => response_eq, hnumber, hpushed, fun r => response_write⟩

/-- A refusal with keys that nobody knows. -/
def refusal : Members :=
  [("data", .obj [("message", .str "m"), ("extra", .arr [.null]), ("code", .str "c")]),
    ("more", .num "1.5"), ("type", .str "error")]

/-- No float is as large as `1e400`. -/
def holds (text : String) : Bool := text ≠ "1e400"

theorem refusal_plain : (clientResponse fun _ => Serde.string).Plain (.obj refusal) := by
  refine ⟨by decide, nofun, ?_⟩
  intro name f hname hf
  cases hname
  cases hf
  intro v hv
  cases hv
  refine ⟨?_, fun _ _ => trivial, fun _ _ => trivial⟩
  intro v hv
  cases hv

theorem decoder_exact_refusal :
    response (ρ := String) holds (.obj refusal) = some (.error ⟨none, "c", "m"⟩) ∧
      response (ρ := String) holds (.obj [("type", .num "3")]) = none ∧
      response (ρ := String) holds (.obj [("type", .str "event")]) = some .unknown ∧
      response (ρ := String) holds ((clientResponse fun _ => .string).write .unknown) =
        some .unknown := by
  obtain ⟨hplain, hnumber, hpushed, hround⟩ := decoder_exact (fun _ => Serde.string) holds
  have htype : ∀ kind : Pushed, (Json.obj refusal).get? "type" ≠ some (.str kind.name) := by
    intro kind heq
    have hname : "error" = kind.name := Json.str.inj (Option.some.inj heq)
    exact name_not_mem_waited kind (hname ▸ by decide)
  refine ⟨?_, ?_, ?_, ?_⟩
  · rw [hplain (.obj refusal) refusal_plain (by decide) htype]
    rfl
  · exact (hnumber _ "3" (by decide) rfl).1
  · exact hpushed _ .event (by decide) rfl
  · exact hround .unknown rfl nofun

def commandReply (result : Members) : Json :=
  .obj [("type", .str "command_result"),
    ("data", .obj [("request_id", .str "r"), ("result", .obj result)])]

/-- What the types read, and what the client reads. -/
def both (v : Json) : Option (ClientResponse String) × Option (ClientResponse String) :=
  ((clientResponse fun _ => .string).read (.text holds) v, response holds v)

/-- The types read a variant's index from a buffer, look at every number and take an empty object
for no data; the client does none of it. -/
theorem decoder_differs :
    both (commandReply [("result", .num "8")]) = (some (.commandResult ⟨"r", .accepted⟩), none) ∧
      both (.obj [("data", .obj [("code", .str "c"), ("message", .str "m")]),
          ("more", .num "1e400"), ("type", .str "error")]) =
        (none, some (.error ⟨none, "c", "m"⟩)) ∧
      both (commandReply [("result", .str "driver_status"),
          ("data", .obj [("instance_id", .str "i"), ("state", .obj [("idle", .obj [])])])]) =
        (some (.commandResult ⟨"r", .driverStatus ⟨"i", .idle⟩⟩), none) := by
  refine ⟨?_, ?_, ?_⟩
  · decide
  · decide
  · decide

end Agend.OneShot.Staged
