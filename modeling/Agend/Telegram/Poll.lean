import Agend.Telegram.Inbound

/-! The poll loop: one batch after another, each update claimed before it may act. -/
namespace Agend.Telegram

open Client Library

/-- Telegram's updates for each bot, each under its own id. -/
structure Feed where
  update : Nat → Int → Option Json
  named : ∀ {bot id v}, update bot id = some v → (v.index "update_id").asI64 = some id
  nonneg : ∀ {bot id v}, update bot id = some v → 0 ≤ id

/-- A prefix, in id order, of the updates from an offset on. -/
structure Feed.Answer (feed : Feed) (bot : Nat) (offset : Int) (batch : List (Int × Json)) :
    Prop where
  held : ∀ u ∈ batch, feed.update bot u.1 = some u.2
  ahead : ∀ u ∈ batch, offset ≤ u.1
  ordered : batch.Pairwise fun u v => u.1 < v.1
  full : ∀ id v, feed.update bot id = some v → offset ≤ id → ∀ u ∈ batch, id ≤ u.1 → (id, v) ∈ batch

def unorderedUpdate : String := "unordered or invalid Telegram update identity"

/-- The updates of a batch with their ids, each above the one before. -/
def ascending (previous : Int) : List Json → Except String (List (Int × Json))
  | [] => .ok []
  | update :: rest => do
    let id ← okOr ((update.index "update_id").asI64.filter fun id =>
      0 ≤ id && id < i64Max && previous < id) unorderedUpdate
    let out ← ascending id rest
    return (id, update) :: out

def validatedBatch (value : Json) (offset : Int) : Except String (List (Int × Json)) :=
  match value with
  | .arr list =>
    if 100 < list.length then .error "invalid Telegram update batch"
    else if offset = -2 ^ 63 then .error "invalid Telegram offset"
    else ascending (offset - 1) list
  | _ => .error "invalid Telegram update batch"

/-- One call of `once`: its settings and the updates of the batch still to come. -/
structure Round where
  config : TelegramConfig
  bot : Nat
  rest : List (Int × Json)

/-- Where the loop stands between two of its calls. -/
inductive Phase where
  | fetching (offset : Int)
  | next
  | claimed (id : Int) (update : Json)
  | admitted (id : Int) (action : Admitted)
  | acting (id : Int) (action : Admitted)
  | finishing (id : Int) (status : String)

/-- The tables and the loop; a loop that returned, stopped or crashed is gone. -/
structure System where
  store : Store
  worker : Option (Round × Phase)

/-- A request handed to the operator handlers. -/
structure Dispatched where
  bot : Nat
  update : Int
  action : Admitted
  deriving DecidableEq

inductive Event where
  | outbox (op : Operation)
  | begin (config : TelegramConfig) (bot : Nat)
  | answer (batch : List (Int × Json))
  | next
  | admitting
  | claimAction
  | dispatch (result : Except String Unit)
  | finish
  | stop

/-- What `finish` records of an action that was handed over. -/
def statusOf (action : Admitted) (result : Except String Unit) : String :=
  match result with
  | .ok _ => if action.request.marksRead then "read" else "accepted"
  | .error _ => "refused"

namespace System

variable (fingerprint : Json → String) (s : System)

def move (worker : Round × Phase) : System :=
  { s with worker := some worker }

/-- `once` returns, or the process goes away. -/
def leave : System :=
  { s with worker := none }

/-- The claim of the next update; a claimed one is passed over. -/
def next (r : Round) : System :=
  match r.rest with
  | [] => s.leave
  | (id, update) :: rest =>
    match s.store.claimTelegramUpdate r.bot id (fingerprint update) with
    | .error _ => s.leave
    | .ok (store, true) => ⟨store, some ({ r with rest := rest }, .claimed id update)⟩
    | .ok (store, false) => ⟨store, some ({ r with rest := rest }, .next)⟩

/-- What becomes of a claimed update once it was looked at. -/
def judge (r : Round) (id : Int) : Except String Admitted → System
  | .error _ => s.move (r, .finishing id "refused")
  | .ok action =>
    if needsReason action then s.move (r, .finishing id "reason_required")
    else if action.request.marksRead then s.move (r, .acting id action)
    else s.move (r, .admitted id action)

def claimAction (r : Round) (id : Int) (action : Admitted) : System :=
  match s.store.claimTelegramAction r.bot id action.deliveryId with
  | (store, true) => ⟨store, some (r, .acting id action)⟩
  | (store, false) => ⟨store, some (r, .finishing id "refused")⟩

def finish (r : Round) (id : Int) (status : String) : System :=
  match s.store.finishTelegramUpdate r.bot id status with
  | .ok (store, true) => ⟨store, some (r, .next)⟩
  | .ok (store, false) => ⟨store, none⟩
  | .error _ => s.leave

/-- Each event is one call to the store, to Telegram or to the operator handlers. -/
def step : Event → Option (System × Option Dispatched)
  | .outbox op => some ({ s with store := (s.store.call op).1 }, none)
  | .stop => some (s.leave, none)
  | .begin config bot =>
    match s.worker with
    | none => some (s.move (⟨config, bot, []⟩, .fetching (s.store.telegramOffset bot)), none)
    | some _ => none
  | .answer batch =>
    match s.worker with
    | some (r, .fetching offset) =>
      match validatedBatch (.arr (batch.map (·.2))) offset with
      | .ok rest => some (s.move ({ r with rest := rest }, .next), none)
      | .error _ => some (s.leave, none)
    | _ => none
  | .next =>
    match s.worker with
    | some (r, .next) => some (s.next fingerprint r, none)
    | _ => none
  | .admitting =>
    match s.worker with
    | some (r, .claimed id update) =>
      some (s.judge r id (Telegram.admitUpdate s.store r.config r.bot update), none)
    | _ => none
  | .claimAction =>
    match s.worker with
    | some (r, .admitted id action) => some (s.claimAction r id action, none)
    | _ => none
  | .dispatch result =>
    match s.worker with
    | some (r, .acting id action) =>
      some (s.move (r, .finishing id (statusOf action result)), some ⟨r.bot, id, action⟩)
    | _ => none
  | .finish =>
    match s.worker with
    | some (r, .finishing id status) => some (s.finish r id status, none)
    | _ => none

/-- Fresh ids for the outbox, and answers as Telegram gives them. -/
def Allowed (feed : Feed) (s : System) : Event → Prop
  | .outbox op => op.Fresh s.store
  | .answer batch => ∀ r offset, s.worker = some (r, .fetching offset) →
      feed.Answer r.bot offset batch
  | _ => True

end System

/-- The loop beside the outbox calls, stopped and started again anywhere. -/
def poll (feed : Feed) (fingerprint : Json → String) :
    Machine System Event (Option Dispatched) where
  init s := s = ⟨.empty, none⟩
  step s e s' o := s.Allowed feed e ∧ s.step fingerprint e = some (s', o)

section Batch

variable {offset previous : Int} {list : List Json} {out batch : List (Int × Json)}

/-- What an accepted batch lists: the updates as they came, each with its id, in order. -/
theorem ascending_eq_ok (h : ascending previous list = .ok out) :
    out.map (·.2) = list ∧ (∀ u ∈ out, (u.2.index "update_id").asI64 = some u.1 ∧ previous < u.1) ∧
      out.Pairwise fun u v => u.1 < v.1 := by
  induction list generalizing previous out with
  | nil =>
    obtain rfl := Except.ok.inj h
    exact ⟨rfl, fun _ hu => absurd hu List.not_mem_nil, List.Pairwise.nil⟩
  | cons update rest ih =>
    unfold ascending at h
    obtain ⟨id, hid, h⟩ := bind_eq_ok.mp h
    obtain ⟨tail, htail, h⟩ := bind_eq_ok.mp h
    obtain rfl := Except.ok.inj h
    obtain ⟨hmap, hall, hsorted⟩ := ih htail
    rw [okOr_eq_ok, Option.filter_eq_some_iff] at hid
    have hlt : previous < id := by
      have hbounds := hid.2
      simp only [Bool.and_eq_true, decide_eq_true_eq] at hbounds
      exact hbounds.2
    refine ⟨by rw [List.map_cons, hmap], ?_, List.pairwise_cons.mpr ⟨fun u hu => (hall u hu).2, hsorted⟩⟩
    intro u hu
    rcases List.mem_cons.mp hu with rfl | hu
    · exact ⟨hid.1, hlt⟩
    · exact ⟨(hall u hu).1, lt_trans hlt (hall u hu).2⟩

theorem validatedBatch_eq_ok (h : validatedBatch (.arr list) offset = .ok out) :
    out.map (·.2) = list ∧ (∀ u ∈ out, (u.2.index "update_id").asI64 = some u.1) ∧
      out.Pairwise fun u v => u.1 < v.1 := by
  simp only [validatedBatch] at h
  split_ifs at h
  obtain ⟨hmap, hall, hsorted⟩ := ascending_eq_ok h
  exact ⟨hmap, fun u hu => (hall u hu).1, hsorted⟩

/-- An answer that is accepted is taken as it came. -/
theorem Feed.Answer.validated {feed : Feed} {bot : Nat} (ha : feed.Answer bot offset batch)
    (h : validatedBatch (.arr (batch.map (·.2))) offset = .ok out) : out = batch := by
  obtain ⟨hmap, hid, -⟩ := validatedBatch_eq_ok h
  have hheld := ha.held
  clear h ha
  induction out generalizing batch with
  | nil =>
    rw [List.map_nil, eq_comm, List.map_eq_nil_iff] at hmap
    exact hmap.symm
  | cons u out ih =>
    cases batch with
    | nil => cases hmap
    | cons u' batch =>
      obtain ⟨hvalue, hrest⟩ := List.cons.inj hmap
      obtain ⟨hu, hout⟩ := List.forall_mem_cons.mp hid
      obtain ⟨hu', hbatch⟩ := List.forall_mem_cons.mp hheld
      have hname : some u.1 = some u'.1 := by
        rw [← hu, ← feed.named hu']
        exact congrArg (fun v : Json => (v.index "update_id").asI64) hvalue
      rw [ih hrest hout hbatch, Prod.ext (Option.some.inj hname) hvalue]

end Batch

/-- What one event does. -/
inductive Moves (fingerprint : Json → String) (s : System) :
    Event → System → Option Dispatched → Prop
  | outbox (op : Operation) :
      Moves fingerprint s (.outbox op) { s with store := (s.store.call op).1 } none
  | left (e : Event) : Moves fingerprint s e s.leave none
  | began {config : TelegramConfig} {bot : Nat} :
      Moves fingerprint s (.begin config bot)
        (s.move (⟨config, bot, []⟩, .fetching (s.store.telegramOffset bot))) none
  | answered {r : Round} {offset : Int} {batch rest : List (Int × Json)}
      (hw : s.worker = some (r, .fetching offset))
      (hv : validatedBatch (.arr (batch.map (·.2))) offset = .ok rest) :
      Moves fingerprint s (.answer batch) (s.move ({ r with rest := rest }, .next)) none
  | claimed {r : Round} {id : Int} {update : Json} {rest : List (Int × Json)}
      (hw : s.worker = some (r, .next)) (hr : r.rest = (id, update) :: rest)
      (hnew : s.store.updates.get (r.bot, id) = none) (hid : 0 ≤ id) :
      Moves fingerprint s .next
        ⟨{ s.store with
          updates := s.store.updates.put ⟨r.bot, id, fingerprint update, none, none⟩ },
          some ({ r with rest := rest }, .claimed id update)⟩ none
  | passed {r : Round} {id : Int} {update : Json} {rest : List (Int × Json)} {row : UpdateRow}
      (hw : s.worker = some (r, .next)) (hr : r.rest = (id, update) :: rest)
      (hold : s.store.updates.get (r.bot, id) = some row) :
      Moves fingerprint s .next (s.move ({ r with rest := rest }, .next)) none
  | refused {e : Event} {r : Round} {phase : Phase} {id : Int} (hw : s.worker = some (r, phase))
      (status : String) : Moves fingerprint s e (s.move (r, .finishing id status)) none
  | marking {r : Round} {id : Int} {update : Json} {action : Admitted}
      (hw : s.worker = some (r, .claimed id update))
      (ha : Telegram.admitUpdate s.store r.config r.bot update = .ok action)
      (hm : action.request.marksRead = true) :
      Moves fingerprint s .admitting (s.move (r, .acting id action)) none
  | admitted {r : Round} {id : Int} {update : Json} {action : Admitted}
      (hw : s.worker = some (r, .claimed id update))
      (ha : Telegram.admitUpdate s.store r.config r.bot update = .ok action) :
      Moves fingerprint s .admitting (s.move (r, .admitted id action)) none
  | used {r : Round} {id : Int} {action : Admitted} {row : UpdateRow}
      (hw : s.worker = some (r, .admitted id action))
      (hget : s.store.updates.get (r.bot, id) = some row) (hrow : row.deliveryId = none)
      (hunused : ∀ other ∈ s.store.updates.rows, other.deliveryId ≠ some action.deliveryId) :
      Moves fingerprint s .claimAction
        ⟨{ s.store with
          updates := s.store.updates.put { row with deliveryId := some action.deliveryId } },
          some (r, .acting id action)⟩ none
  | dispatched {r : Round} {id : Int} {action : Admitted} (result : Except String Unit)
      (hw : s.worker = some (r, .acting id action)) :
      Moves fingerprint s (.dispatch result) (s.move (r, .finishing id (statusOf action result)))
        (some ⟨r.bot, id, action⟩)
  | finished {r : Round} {id : Int} {status : String} {row : UpdateRow} {store : Store}
      (hw : s.worker = some (r, .finishing id status))
      (hget : s.store.updates.get (r.bot, id) = some row)
      (hs : store.updates = s.store.updates.put { row with outcome := some status }) :
      Moves fingerprint s .finish ⟨store, some (r, .next)⟩ none

section Steps

variable {fingerprint : Json → String} {s s' : System} {e : Event} {o : Option Dispatched}
  {r : Round}

theorem moves_next (hw : s.worker = some (r, .next)) :
    Moves fingerprint s .next (s.next fingerprint r) none := by
  unfold System.next
  split
  · exact .left .next
  · rename_i id update rest hr
    split
    · exact .left .next
    · rename_i store h
      obtain ⟨hnew, hid, rfl⟩ := Store.claimTelegramUpdate_new h
      exact .claimed hw hr hnew hid
    · rename_i store h
      obtain ⟨rfl, row, hold⟩ := Store.claimTelegramUpdate_old h
      exact .passed hw hr hold

theorem moves_admitting {id : Int} {update : Json} (hw : s.worker = some (r, .claimed id update)) :
    Moves fingerprint s .admitting
      (s.judge r id (Telegram.admitUpdate s.store r.config r.bot update)) none := by
  cases ha : Telegram.admitUpdate s.store r.config r.bot update with
  | error text => exact .refused hw "refused"
  | ok action =>
    simp only [System.judge]
    split_ifs with hreason hmark
    · exact .refused hw "reason_required"
    · exact .marking hw ha hmark
    · exact .admitted hw ha

theorem moves_claimAction {id : Int} {action : Admitted}
    (hw : s.worker = some (r, .admitted id action)) :
    Moves fingerprint s .claimAction (s.claimAction r id action) none := by
  unfold System.claimAction
  split
  · rename_i store h
    obtain ⟨row, hget, hrow, hunused, rfl⟩ := Store.claimTelegramAction_won h
    exact .used hw hget hrow hunused
  · rename_i store h
    obtain rfl := Store.claimTelegramAction_lost h
    exact .refused hw "refused"

theorem moves_finish {id : Int} {status : String}
    (hw : s.worker = some (r, .finishing id status)) :
    Moves fingerprint s .finish (s.finish r id status) none := by
  unfold System.finish
  split
  · rename_i store h
    obtain ⟨row, hget, hs⟩ := Store.finishTelegramUpdate_done h
    exact .finished hw hget hs
  · rename_i store h
    obtain rfl := Store.finishTelegramUpdate_kept h
    exact .left .finish
  · exact .left .finish

theorem moves_of_step (h : s.step fingerprint e = some (s', o)) : Moves fingerprint s e s' o := by
  cases e with
  | outbox op =>
    cases h
    exact .outbox op
  | stop =>
    cases h
    exact .left .stop
  | begin config bot =>
    simp only [System.step] at h
    split at h <;> cases h
    exact .began
  | answer batch =>
    simp only [System.step] at h
    split at h
    · split at h <;> cases h
      · exact .answered ‹_› ‹_›
      · exact .left _
    · cases h
  | next =>
    simp only [System.step] at h
    split at h <;> cases h
    exact moves_next ‹_›
  | admitting =>
    simp only [System.step] at h
    split at h <;> cases h
    exact moves_admitting ‹_›
  | claimAction =>
    simp only [System.step] at h
    split at h <;> cases h
    exact moves_claimAction ‹_›
  | dispatch result =>
    simp only [System.step] at h
    split at h <;> cases h
    exact .dispatched result ‹_›
  | finish =>
    simp only [System.step] at h
    split at h <;> cases h
    exact moves_finish ‹_›

end Steps

end Agend.Telegram
