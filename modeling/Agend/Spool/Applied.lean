import Mathlib.Algebra.Group.Nat.Defs
import Agend.Spool.Procedures

/-! What holds in every run of the helpers and the daemon, at whatever calls they take turns, fail
or end. -/
namespace Agend.Spool

open Library Program
open Agend.Runtime hiding Reply

abbrev History (F : Formats) :=
  List (Transition (Pool (interface F)) (Pool.Turn (interface F) (system F).Task) Unit)

variable {F : Formats} {w : World} {i : Nat} {h : History F} {p : Pool (interface F)}

/-- A request that the daemon handles was sent. -/
def admits (_ : Nat) (w : World) : Task → Prop
  | .handle id request => w.sent[id]? = some request
  | _ => True

/-- The spool is new; the store may hold anything. -/
def Starts (w : World) : Prop := ∃ store, w = { World.empty with store := store }

theorem Starts.sound (h : Starts w) : Sound F w := by
  obtain ⟨store, rfl⟩ := h
  have hdir : ∀ kind, ({ World.empty with store := store } : World).dir kind = ⟨none, [], []⟩ := by
    intro kind
    cases kind <;> rfl
  constructor
  case dirs =>
    intro kind
    rw [hdir]
    exact ⟨.nil, by simp, by simp, by simp⟩
  case gone =>
    intro kind e he
    rw [hdir] at he
    cases he
  case distinct => exact .nil
  case once => exact List.nodup_nil
  case confirmedOnce => exact List.nodup_nil
  all_goals
    intro x hx
    cases hx

theorem main_runs {task : Task} (hw : Sound F w) (ht : admits i w task) :
    Runs (pact F) i (main F i task) (fun _ _ => True) w := by
  cases task with
  | hook requestId instanceId data => exact Runs.mono hook_leaves fun _ _ _ _ => trivial
  | ack instanceId receipts => exact Runs.mono (ack_leaves hw) fun _ _ _ _ => trivial
  | replay kind => exact Runs.mono replay_leaves fun _ _ _ _ => trivial
  | ingest kind after => exact ingest_runs
  | handle id request => exact Runs.mono (handle_leaves hw ht) fun _ _ _ _ => trivial

theorem keeps : (system F).Keeps (pact F) admits where
  keep _ _ _ _ hw ha hd := Sound.exec hw hd ha
  leave i w hw := by
    have hw : Sound F w := hw
    simp only [system]
    split_ifs with hl
    · refine ⟨hw.withLock none, fun j hj => rely_withLock fun h => ?_⟩
      exact absurd (Option.some.inj (h.symm.trans hl)) hj
    · exact ⟨hw, fun j _ => Rely.refl⟩
  main _ _ _ hw ht := main_runs hw ht

/-- A run from a new spool in which ids are new when they are drawn, and the rest of the daemon
leaves the rows of published records alone. -/
structure Executes (F : Formats) (h : History F) (p : Pool (interface F)) : Prop where
  run : ((system F).machine Starts).Run h p
  meets : ∀ t ∈ h, System.Meets (pact F) admits t

/-- Every reached world is sound, and every call was due. -/
theorem Executes.sound (hr : Executes F h p) : Sound F p.world ∧
    ∀ t ∈ h, Sound F t.before.world ∧ System.Dutiful (S := system F) (pact F) t := by
  obtain ⟨hc, hall⟩ := keeps.run (fun _ hs => hs.sound) hr.run hr.meets
  exact ⟨hc.safe, hall⟩

/-! A run in which a helper has no answer, a pass of the daemon dies between the append and the
removal, the next pass finds the event, and a receipt is replayed while it is handled. -/

instance {c : Call} {a : Answer} : Decidable (Fresh w a c) :=
  match c with
  | .writeRecord _ e => inferInstanceAs (Decidable (∀ id ∈ e.request.eventId,
      (∀ e' ∈ w.hooks.published, e'.request.eventId ≠ some id) ∧ w.store.events.get id = none))
  | .acknowledge _ _ => inferInstanceAs (Decidable (∀ e ∈ w.hooks.published,
      e.request.eventId ≠ some a.text))
  | .lock _ | .tryLock _ | .unlock _ | .readCounter _ | .writeCounter _ _ | .newId | .list _
  | .read _ _ | .remove _ _ _ | .post _ | .await _ | .late | .now | .appendEvent _ _ _
  | .haltStartup _ _ | .revokeRouting _ _ | .route _ _ | .respond _ _ _ | .retain _ _ _ =>
    .isTrue trivial

def isFresh (w : World) (a : Answer) (c : Call) : Bool := decide (Fresh w a c)

theorem fresh_of_isFresh {c : Call} {a : Answer} (h : isFresh w a c = true) : Fresh w a c :=
  of_decide_eq_true h

/-- The rest of the daemon stays out, and what is drawn is new. -/
def undisturbed
    (t : Transition (Pool (interface F)) (Pool.Turn (interface F) (system F).Task) Unit) : Bool :=
  match t.event with
  | .start _ (.handle id request) => t.before.world.sent[id]? = some request
  | .start _ _ => true
  | .act i a => List.isEmpty (Answer.moves a) && match t.before.procs i with
    | some (.call c _) => isFresh t.before.world a c
    | _ => true
  | .leave _ => true

theorem meets_of_undisturbed
    {t : Transition (Pool (interface F)) (Pool.Turn (interface F) (system F).Task) Unit}
    (h : undisturbed t = true) : System.Meets (pact F) admits t := by
  obtain ⟨p, e, p', _⟩ := t
  cases e with
  | start i task =>
    cases task with
    | handle id request =>
      have hsent : p.world.sent[id]? = some request := by simpa [undisturbed] using h
      exact hsent
    | _ => trivial
  | act i a =>
    intro c next hc
    change p.procs i = some (.call c next) at hc
    simp only [undisturbed, Bool.and_eq_true, List.isEmpty_iff] at h
    obtain ⟨hmoves, hfresh⟩ := h
    rw [hc] at hfresh
    have hfresh : Fresh p.world a c := fresh_of_isFresh hfresh
    constructor
    · rw [hmoves]
      exact fun mv hmv => by cases hmv
    · rw [hmoves]
      exact hfresh
  | leave i => trivial

namespace Recovery

def session : String := "11111111-1111-4111-8111-111111111111"

def formats : Formats where
  object _ := true
  parse _ := some (.obj [("session_id", .str session), ("hook_event_name", .str "Stop")])
  tooLong _ := false

def data : HookData :=
  ⟨"22222222-2222-4222-8222-222222222222", session, "Stop", "p", 7, false⟩

def receipt : Receipt := ⟨"m", "33333333-3333-4333-8333-333333333333", session⟩

def drawn : String := "44444444-4444-4444-8444-444444444444"

def acked : ClaudeRequest := ⟨drawn, "c", .ack [receipt]⟩

def delivered : Store :=
  (Machine.play (fun s op => some (Store.call s op)) [] .empty [
    .addInstance ⟨"c", .claude, "/bin/a", [], "/tmp", some session, .running, true, none, false,
      "push"⟩,
    .claimMessage ⟨"m", "operator", "c", none, "body", .queue⟩ 0,
    .reserve ⟨"m", receipt.deliveryId, "c", session, .channel⟩ 1,
    .written "m" receipt.deliveryId 2]).2

abbrev Turn := Pool.Turn (interface formats) (system formats).Task

def acts (i n : Nat) : List Turn :=
  List.replicate n (.act i ({ text := drawn, now := 9 } : Answer))

def start : Pool (interface formats) := ⟨{ World.empty with store := delivered }, fun _ => none⟩

def played (turns : List (List Turn)) : History formats × Pool (interface formats) :=
  (system formats).play [] start turns.flatten

def turns : List (List Turn) :=
  [[.start 1 (.hook "q" "c" data)], acts 1 8, [.leave 1],
    [.start 2 (.ingest .hooks none)], acts 2 5, [.leave 2],
    [.start 3 (.ingest .hooks none)], acts 3 7, [.leave 3],
    [.start 4 (.ack "c" [receipt])], acts 4 12, [.leave 4],
    [.start 5 (.handle 1 acked)], acts 5 3,
    [.start 6 (.replay .acks)], acts 6 5, [.start 7 (.handle 2 acked)], acts 7 3, acts 6 3]

theorem executes {turns : List (List Turn)} (h : (played turns).1.all undisturbed = true) :
    Executes formats (played turns).1 (played turns).2 where
  run := System.run_play (.start ⟨⟨delivered, rfl⟩, fun _ => rfl⟩) turns.flatten
  meets t ht := meets_of_undisturbed (List.all_eq_true.mp h t ht)

theorem played_turns :
    let w := (played turns).2.world
    (played turns).1.all undisturbed = true ∧
      (w.hooks.published.length = 1 ∧ w.hooks.files = [] ∧ w.acks.published.length = 1 ∧
        w.acks.files = []) ∧
      w.attempts = [⟨3, data.eventId, false⟩, ⟨2, data.eventId, true⟩] ∧
      w.confirmations = [receipt.ack "c"] := by
  decide +kernel

end Recovery

/-- A record is on disk until its request had its effect, and a request that was answered as
committed had it. -/
structure Kept (w : World) : Prop where
  filed : ∀ kind, ∀ e ∈ (w.dir kind).published,
    e ∈ (w.dir kind).files ∨ Effect w.store e.request
  committed : ∀ id outcome, (id, outcome) ∈ w.replies → outcome = .reply true →
    ∃ r, w.sent[id]? = some r ∧ Effect w.store r

theorem Sound.kept (hw : Sound F w) : Kept w where
  filed kind e he := by
    by_cases hfile : e ∈ (w.dir kind).files
    · exact .inl hfile
    · exact .inr (hw.gone kind e he hfile)
  committed id outcome hx hok := hw.replies (id, outcome) hx hok

/-- No receipt is lost. -/
theorem receipts_kept (hr : Executes F h p) : Kept p.world :=
  hr.sound.1.kept

open Recovery in
theorem receipts_kept_recovered :
    let w := (played turns).2.world
    (w.hooks.published.length = 1 ∧ w.hooks.files = [] ∧ w.acks.published.length = 1 ∧
      w.acks.files = []) ∧ Kept w :=
  ⟨played_turns.2.1, receipts_kept (executes played_turns.1)⟩

/-! Hooks. -/

/-- The event of a published hook was inserted by one append when it is stored, and by none
before; later appends find it, replayed or not. -/
structure Once (F : Formats) (w : World) : Prop where
  inserts : ∀ e ∈ w.hooks.published, ∀ data, e.request.operation = .hook data →
    w.attempts.countP (fun x => x.event = data.eventId ∧ x.inserted = true) =
      if (w.store.events.get data.eventId).isSome then 1 else 0
  found : ∀ e ∈ w.hooks.published, ∀ data, e.request.operation = .hook data →
    (w.store.events.get data.eventId).isSome = true → ∀ replayed now, now < 2 ^ 63 →
      w.store.appendDriverEvent F.object
        (HookData.toEvent { data with replayed := replayed } e.request.instanceId) now =
          .ok (w.store, false)

theorem countP_inserted {attempts : List Attempt} {id : String} :
    attempts.countP (fun x => x.event = id ∧ x.inserted = true) =
      ((attempts.filter (·.inserted)).map (·.event)).count id := by
  induction attempts with
  | nil => rfl
  | cons x rest ih =>
    rw [List.countP_cons, ih]
    cases hx : x.inserted with
    | false => simp [hx]
    | true =>
      simp only [List.filter_cons, hx, if_true, List.map_cons, List.count_cons]
      simp

theorem Sound.once_inserted (hw : Sound F w) : Once F w where
  inserts e he data hop := by
    have hid : e.request.eventId = some data.eventId := by simp [ClaudeRequest.eventId, hop]
    rw [countP_inserted]
    cases hold : w.store.events.get data.eventId with
    | none =>
      refine List.count_eq_zero.mpr fun hmem => ?_
      obtain ⟨x, hx, heq⟩ := List.mem_map.mp hmem
      obtain ⟨-, old, hold'⟩ := hw.attempted x (List.mem_of_mem_filter hx)
      rw [heq, hold] at hold'
      cases hold'
    | some old =>
      obtain ⟨i, hi⟩ := hw.inserted e he data.eventId hid old hold
      have hmem : (⟨i, data.eventId, true⟩ : Attempt) ∈ w.attempts.filter (·.inserted) :=
        List.mem_filter.mpr ⟨hi, rfl⟩
      exact List.count_eq_one_of_mem hw.once (List.mem_map_of_mem hmem)
  found e he data hop hstored replayed now hnow := by
    obtain ⟨old, hold⟩ := Option.isSome_iff_exists.mp hstored
    have hrecorded := hw.recorded e he data hop old hold
    have htakes : Store.Takes F.object
        (HookData.toEvent { data with replayed := replayed } e.request.instanceId) := by
      have h := hrecorded.takes
      exact ⟨h.ids, h.instanceId, h.kind, h.payload, h.object, h.time⟩
    exact Store.appendDriverEvent_of_stored htakes hnow hold hrecorded.same

theorem hooks_inserted_once (hr : Executes F h p) : Once F p.world ∧
    ∀ t ∈ h, ∀ i j a data next, t.event = .act i a →
      t.before.procs i = some (.call (.route j data) next) ∨
        t.before.procs i = some (.call (.revokeRouting j data) next) →
      j = i ∧ (⟨j, data.eventId, true⟩ : Attempt) ∈ t.before.world.attempts := by
  refine ⟨hr.sound.1.once_inserted, fun t ht i j a data next he hor => ?_⟩
  have hdutiful := (hr.sound.2 t ht).2
  rcases hor with hcall | hcall
  · obtain ⟨rfl, hmem⟩ := hdutiful i a (.route j data) next he hcall
    exact ⟨rfl, hmem⟩
  · obtain ⟨rfl, hmem⟩ := hdutiful i a (.revokeRouting j data) next he hcall
    exact ⟨rfl, hmem⟩

open Recovery in
theorem hooks_inserted_once_recovered :
    let w := (played turns).2.world
    w.attempts = [⟨3, data.eventId, false⟩, ⟨2, data.eventId, true⟩] ∧ Once formats w :=
  ⟨played_turns.2.2.1, (hooks_inserted_once (executes played_turns.1)).1⟩

/-! Acknowledgements. -/

/-- What was confirmed was confirmed once, stays so, and was published. -/
structure ConfirmedOnce (w : World) : Prop where
  once : w.confirmations.Nodup
  confirmed : ∀ ack ∈ w.confirmations, Confirmed w.store ack
  published : ∀ ack ∈ w.confirmations,
    ∃ e ∈ w.acks.published, e.request.operation =
      .ack [⟨ack.messageId, ack.deliveryId, ack.sessionId⟩] ∧ e.request.instanceId = ack.instanceId

theorem Sound.confirmed_once (hw : Sound F w) : ConfirmedOnce w where
  once := hw.confirmedOnce
  confirmed ack hack := (hw.confirmations ack hack).1
  published ack hack := by
    obtain ⟨-, e, he, x, hx, rfl⟩ := hw.confirmations ack hack
    refine ⟨e, he, ?_, rfl⟩
    have hsingle := ((hw.dirs .acks).valid e he).single
    unfold ClaudeRequest.receipts at hx hsingle
    split at hx
    · cases hx
    · rename_i receipts hop
      rw [hop] at hsingle ⊢
      change receipts.length ≤ 1 at hsingle
      have hone : receipts.length = 1 := by
        have hpos : 0 < receipts.length := List.length_pos_of_mem hx
        omega
      obtain ⟨y, rfl⟩ := List.length_eq_one_iff.mp hone
      obtain rfl := List.mem_singleton.mp hx
      rfl

/-- A receipt is confirmed at most once, and only when its helper published it. -/
theorem receipts_confirmed_once (hr : Executes F h p) : ConfirmedOnce p.world :=
  hr.sound.1.confirmed_once

open Recovery in
theorem receipts_confirmed_once_recovered :
    let w := (played turns).2.world
    w.confirmations = [receipt.ack "c"] ∧ ConfirmedOnce w :=
  ⟨played_turns.2.2.2, receipts_confirmed_once (executes played_turns.1)⟩

/-! Order. -/

theorem Name.text_toList (n : Name) :
    n.text.toList = padded 20 n.seq ++ '-' :: n.id.toList ++ ".json".toList := by
  simp [Name.text, String.toList_append]

theorem Name.text_lt {a b : Name} (h : a.seq < b.seq) (hb : b.seq < 2 ^ 64) : a.text < b.text := by
  have hlt : b.seq < 10 ^ 20 := by omega
  rw [String.lt_iff_toList_lt, a.text_toList, b.text_toList, List.append_assoc, List.append_assoc]
  apply append_lt_append _ (padded_lt (by omega) h hlt)
  rw [length_padded (by omega) (by omega), length_padded (by omega) hlt]

/-- The files are listed as they were published: the names are sorted as texts, and their numbers
have one length. -/
theorem Dir.Sound.listed {d : Dir} {kind : Kind} (hd : d.Sound kind) :
    sortByKey Name.text (d.files.map (·.name)) = (d.files.map (·.name)).reverse := by
  have hfiles : d.files.Pairwise fun later earlier => earlier.name.text < later.name.text := by
    refine (hd.ordered.sublist hd.files).imp_of_mem fun hlater _ hlt => ?_
    exact Name.text_lt hlt (hd.valid _ (hd.files.subset hlater)).seq
  have hreverse : (d.files.map (·.name)).reverse.Pairwise fun a b => a.text < b.text := by
    rw [List.pairwise_reverse, List.pairwise_map]
    exact hfiles
  have hperm : (sortByKey Name.text (d.files.map (·.name))).Perm (d.files.map (·.name)).reverse :=
    (sortByKey_perm _ _).trans (List.reverse_perm _).symm
  have hnodup : ((d.files.map (·.name)).reverse.map Name.text).Nodup :=
    List.pairwise_map.mpr (hreverse.imp ne_of_lt)
  refine hperm.eq_of_pairwise ?_ (pairwise_sortByKey Name.text _) (hreverse.imp le_of_lt)
  intro a b ha hb hab hba
  exact List.inj_on_of_nodup_map hnodup (hperm.mem_iff.mp ha) hb (le_antisymm hab hba)

/-- Whatever was published, removed or left behind, a listing is in the order of publication. -/
theorem records_listed_in_order (hr : Executes F h p) (kind : Kind) (a : Answer) :
    ((p.world.perform F a (.list kind)).1 =
      .ok ((p.world.dir kind).files.map (·.name)).reverse) ∧
    ((p.world.dir kind).files.map (·.name)).reverse.Pairwise (·.seq < ·.seq) := by
  have hd := hr.sound.1.dirs kind
  refine ⟨congrArg Except.ok hd.listed, ?_⟩
  rw [List.pairwise_reverse, List.pairwise_map]
  exact hd.ordered.sublist hd.files

open Recovery in
theorem records_listed_in_order_two :
    let other : HookData := { data with eventId := drawn }
    let p := (played [[.start 1 (.hook "q" "c" data)], acts 1 8,
      [.start 2 (.hook "r" "c" other)], acts 2 8]).2
    p.world.hooks.files.map (·.name) = [⟨2, drawn⟩, ⟨1, drawn⟩] ∧
      (p.world.perform formats {} (.list .hooks)).1 =
        .ok (p.world.hooks.files.map (·.name)).reverse :=
  ⟨by decide +kernel, (records_listed_in_order (executes (by decide +kernel)) .hooks {}).1⟩

end Agend.Spool
