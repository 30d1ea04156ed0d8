import Mathlib.Algebra.Group.Int.Defs
import Agend.Asks.Thread
import Agend.Telegram.Outbox
import Agend.Library.Except
import Agend.Library.Reads
import Mathlib.Tactic.Push

/-! Inbound updates: claimed once, admitted only against a confirmed and current notification. -/
namespace Agend.Telegram

open Client Library
open Pipeline (isBlank)

structure TelegramConfig where
  chatId : Int
  allowUserIds : List Nat
  deriving DecidableEq

def TelegramConfig.allows (config : TelegramConfig) (chatId : Int) (userId : Nat) (isBot : Bool) :
    Bool :=
  !isBot && chatId = config.chatId && config.allowUserIds.contains userId

inductive ClientRequest where
  | markAttentionRead (requestId attentionId readKey : String)
  | resolveAttention (requestId attentionId : String) (action : AttentionAction)
      (note : Option String)
  | answerAsk (requestId askId : String) (source : AnswerSource) (reply : AskReply)
  deriving DecidableEq

structure Admitted where
  deliveryId : String
  taskVersion : Option (Nat × Nat)
  request : ClientRequest
  expected : AttentionRequiredData
  deriving DecidableEq

def invalidUpdate : String := "invalid Telegram update identity"

def i64Max : Int := 2 ^ 63 - 1

def isHexDigit (c : Char) : Bool :=
  ('0' ≤ c && c ≤ '9') || ('a' ≤ c && c ≤ 'f') || ('A' ≤ c && c ≤ 'F')

namespace Store

variable (s : Store)

/-- `COALESCE(MAX(update_id)+1,0)`. -/
def telegramOffset (bot : Nat) : Int :=
  match ((s.updates.rows.filter (·.botId = bot)).map (·.updateId)).max? with
  | some last => last + 1
  | none => 0

def claimTelegramUpdate (bot : Nat) (update : Int) (fingerprint : String) :
    Except String (Store × Bool) :=
  if bot = 0 ∨ 2 ^ 52 ≤ bot ∨ update < 0 ∨ update = i64Max ∨ fingerprint.utf8ByteSize ≠ 64 ∨
      ¬ fingerprint.toList.all isHexDigit then .error invalidUpdate
  else match s.updates.get (bot, update) with
    | some old => if old.fingerprint ≠ fingerprint then .error invalidUpdate else .ok (s, false)
    | none =>
      .ok ({ s with updates := s.updates.put ⟨bot, update, fingerprint, none, none⟩ }, true)

/-- Consumes a notification before its first operator effect. -/
def claimTelegramAction (bot : Nat) (update : Int) (delivery : String) : Store × Bool :=
  match s.updates.get (bot, update) with
  | none => (s, false)
  | some row =>
    if row.outcome = none ∧ row.deliveryId = none ∧
        (∀ other ∈ s.updates.rows, other.deliveryId ≠ some delivery) ∧
        ∃ notice ∈ s.notices.rows, notice.deliveryId = delivery ∧ notice.active = true then
      ({ s with updates := s.updates.put { row with deliveryId := some delivery } }, true)
    else (s, false)

/-- `UPDATE telegram_notices SET active=0 WHERE delivery_id=delivery`. -/
def deactivateDelivery (delivery : Option String) : Store :=
  { s with
    notices := s.notices.update
      (fun notice => if some notice.deliveryId = delivery then { notice with active := false }
        else notice)
      (fun notice => by split_ifs <;> rfl) }

def finishTelegramUpdate (bot : Nat) (update : Int) (outcome : String) :
    Except String (Store × Bool) :=
  if outcome = "" ∨ 4096 < outcome.utf8ByteSize then .error invalidUpdate
  else match s.updates.get (bot, update) with
    | none => .ok (s, false)
    | some row =>
      if row.outcome = none then
        .ok (({ s with updates := s.updates.put { row with outcome := some outcome } } :
          Store).deactivateDelivery row.deliveryId, true)
      else .ok (s, false)

/-- The rows that `message` belongs to: joined with their active notices, not consumed. -/
def messageRows (bot : Nat) (chat message : Int) : List TelegramDelivery :=
  s.outbox.rows.flatMap fun row =>
    ((s.notices.rows.filter fun notice => notice.deliveryId = row.id && notice.active).map
      fun _ => row).filter fun row =>
        s.updates.rows.all (·.deliveryId ≠ some row.id) && row.destination.botId = bot &&
          row.destination.chatId = chat && row.messageIds.contains message

def telegramMessage (bot : Nat) (chat message : Int) : Except String (Option TelegramDelivery) :=
  match s.messageRows bot chat message with
  | [] => .ok none
  | [row] => if row.Valid ∧ row.abandoned = false then .ok (some row) else .error invalidUpdate
  | _ => .error invalidUpdate

end Store

/-- Expired buttons still receive an answer, but only in the configured chat from an allowed human
and on this bot's message. -/
def callbackFeedback (config : TelegramConfig) (bot : Nat) (update : Json) : Option String := do
  let query ← update.get? "callback_query"
  let message := query.index "message"
  let chat ← ((message.index "chat").index "id").asI64
  let user ← ((query.index "from").index "id").asU64
  if !config.allows chat user (((query.index "from").index "is_bot").asBool.getD true) ||
      ((message.index "from").index "id").asU64 ≠ some bot ||
      ((message.index "from").index "is_bot").asBool ≠ some true then none
  else (query.index "id").asStr.filter fun id => id ≠ "" && id.utf8ByteSize ≤ 256

/-- What an update points at: its sender, the bot's message, the button press or the text. -/
structure Pointed where
  sender : Json
  message : Json
  callback : Option Json
  text : Option String

def pointed (update : Json) : Except String Pointed :=
  match update.get? "callback_query" with
  | some query => .ok ⟨query.index "from", query.index "message", some query, none⟩
  | none => do
    let message ← okOr (update.get? "message") "unsupported update"
    return ⟨message.index "from", message.index "reply_to_message", none, (message.index "text").asStr⟩

/-- The chat an update came from. -/
def chatOf (update : Json) (p : Pointed) : Option Int :=
  if p.callback.isSome then ((p.message.index "chat").index "id").asI64
  else (((update.index "message").index "chat").index "id").asI64

/-- The request behind a button. -/
def buttonRequest (requestId : String) (row : TelegramDelivery) (expected : AttentionRequiredData)
    (query : Json) : Except String ClientRequest := do
  let data ← okOr ((query.index "data").asStr.filter (·.utf8ByteSize ≤ 64)) "invalid callback data"
  match (data.toList.splitOn ':').map String.ofList with
  | [] => throw "invalid callback"
  | kind :: fields =>
    if fields.head? ≠ some row.id then throw "callback belongs to another notification"
    else do
      let index ← okOr (fields[1]?.bind parseUsize) "invalid action index"
      if 2 < fields.length then throw "invalid callback fields"
      else if kind = "r" ∧ index = 0 then do
        let attentionId ← okOr expected.attentionId "missing attention identity"
        let readKey ← okOr expected.readKey "missing read identity"
        return .markAttentionRead requestId attentionId readKey
      else if kind = "a" ∧ expected.ask = none then do
        let action ← okOr expected.actions[index]? "action not offered"
        let attentionId ← okOr expected.attentionId "missing attention identity"
        return .resolveAttention requestId attentionId action none
      else if kind = "c" then do
        let ask ← okOr expected.ask "not a question"
        let options ← match ask.entries.getLast? with
          | some (.question _ _ options) | some (.followUp _ _ options) => pure options
          | _ => throw "question is not waiting"
        let option ← okOr options[index]? "option not offered"
        return .answerAsk requestId ask.askId .telegram (.choice option)
      else throw "unsupported action"

/-- The request behind a text reply. -/
def textRequest (requestId : String) (expected : AttentionRequiredData) (text : Option String) :
    Except String ClientRequest := do
  let text ← okOr (text.filter (!isBlank ·)) "empty answer"
  match expected.ask with
  | some ask =>
    if ask.accepts (.text text) then
      return .answerAsk requestId ask.askId .telegram (.text text)
    else throw "question is not waiting"
  | none =>
    if expected.actions.contains .requestChanges then do
      let attentionId ← okOr expected.attentionId "missing attention identity"
      return .resolveAttention requestId attentionId .requestChanges (some text)
    else throw "reply to a question or use its action buttons"

/-- Whether the sender may act and points at a message of the bot; its chat and message id. -/
def pointedMessage (config : TelegramConfig) (bot : Nat) (update : Json) (p : Pointed) :
    Except String (Int × Int) := do
  let chat ← okOr (chatOf update p) "missing chat identity"
  if !config.allows chat ((p.sender.index "id").asU64.getD 0)
      ((p.sender.index "is_bot").asBool.getD true) then throw "sender or chat is not allowed"
  else if ((p.message.index "from").index "id").asU64 ≠ some bot ∨
      ((p.message.index "from").index "is_bot").asBool ≠ some true then
    throw "reply does not name this bot's message"
  else do
    let messageId ← okOr ((p.message.index "message_id").asI64.filter (0 < ·))
      "missing notification message"
    return (chat, messageId)

/-- Whether the row is still what the update points at. -/
def checkRow (update : Json) (p : Pointed) (chat messageId : Int) (row : TelegramDelivery) :
    Except String AttentionRequiredData :=
  if ((p.message.index "chat").index "id").asI64 ≠ some chat ∨
      (p.message.index "message_thread_id").asI64 ≠ row.destination.topicId then
    .error "notification destination changed"
  else if p.callback.isNone ∧
      ((update.index "message").index "message_thread_id").asI64 ≠ row.destination.topicId then
    .error "reply topic differs from notification"
  else if !row.complete then .error "notification has not been fully delivered"
  else if p.callback.isSome ∧ row.messageIds.getLast? ≠ some messageId then
    .error "action button is not on the final notification part"
  else okOr row.attention "notification has no actionable snapshot"

/-- The request behind the button that was pressed, or behind the text. -/
def requestFor (config : TelegramConfig) (bot : Nat) (update : Json) (p : Pointed)
    (requestId : String) (row : TelegramDelivery) (expected : AttentionRequiredData) :
    Except String ClientRequest :=
  match p.callback with
  | some query =>
    if (callbackFeedback config bot update).isNone then .error "invalid callback identity"
    else buttonRequest requestId row expected query
  | none => textRequest requestId expected p.text

/-- The operator action behind an update. -/
def admitUpdate (s : Store) (config : TelegramConfig) (bot : Nat) (update : Json) :
    Except String Admitted := do
  let updateId ← okOr ((update.index "update_id").asI64.filter (0 ≤ ·)) "missing update identity"
  let p ← pointed update
  let (chat, messageId) ← pointedMessage config bot update p
  let found ← s.telegramMessage bot chat messageId
  let row ← okOr found "notification is no longer current or has no confirmed receipt"
  let expected ← checkRow update p chat messageId row
  let request ← requestFor config bot update p s!"telegram:{bot}:{updateId}" row expected
  return ⟨row.id, row.taskVersion, request, expected⟩

/-- Requesting changes needs an explicit reason before any operator effect. -/
def needsReason (action : Admitted) : Bool :=
  match action.request with
  | .resolveAttention _ _ .requestChanges none => true
  | _ => false

def ClientRequest.marksRead : ClientRequest → Bool
  | .markAttentionRead .. => true
  | _ => false

/-- The one current row that an update may act on. -/
structure CurrentDelivery (s : Store) (bot : Nat) (update : Json) (p : Pointed) (messageId : Int)
    (row : TelegramDelivery) : Prop where
  stored : row ∈ s.outbox.rows
  valid : row.Valid
  complete : row.complete = true
  active : ∃ notice ∈ s.notices.rows, notice.deliveryId = row.id ∧ notice.active = true
  unused : ∀ used ∈ s.updates.rows, used.deliveryId ≠ some row.id
  bot : row.destination.botId = bot
  chat : chatOf update p = some row.destination.chatId
  messageChat : ((p.message.index "chat").index "id").asI64 = some row.destination.chatId
  topic : (p.message.index "message_thread_id").asI64 = row.destination.topicId
  replyTopic : p.callback = none →
    ((update.index "message").index "message_thread_id").asI64 = row.destination.topicId
  message : (p.message.index "message_id").asI64 = some messageId
  confirmed : messageId ∈ row.messageIds
  last : p.callback.isSome = true → row.messageIds.getLast? = some messageId

section Lemmas

variable {s s' : Store} {bot : Nat} {id chat messageId : Int} {fingerprint delivery status : String}
  {update : Json} {p : Pointed} {row : TelegramDelivery} {expected : AttentionRequiredData}
  {config : TelegramConfig} {action : Admitted}

namespace Store

theorem claimTelegramUpdate_new
    (h : s.claimTelegramUpdate bot id fingerprint = .ok (s', true)) :
    s.updates.get (bot, id) = none ∧ 0 ≤ id ∧
      s' = { s with updates := s.updates.put ⟨bot, id, fingerprint, none, none⟩ } := by
  unfold claimTelegramUpdate at h
  split_ifs at h with hbad
  push Not at hbad
  split at h
  · split_ifs at h
    cases h
  · cases h
    exact ⟨‹_›, hbad.2.2.1, rfl⟩

theorem claimTelegramUpdate_old
    (h : s.claimTelegramUpdate bot id fingerprint = .ok (s', false)) :
    s' = s ∧ ∃ row, s.updates.get (bot, id) = some row := by
  unfold claimTelegramUpdate at h
  split_ifs at h
  split at h
  · split_ifs at h
    cases h
    exact ⟨rfl, _, ‹_›⟩
  · cases h

theorem claimTelegramAction_won (h : s.claimTelegramAction bot id delivery = (s', true)) :
    ∃ row, s.updates.get (bot, id) = some row ∧ row.deliveryId = none ∧
      (∀ other ∈ s.updates.rows, other.deliveryId ≠ some delivery) ∧
      s' = { s with updates := s.updates.put { row with deliveryId := some delivery } } := by
  unfold claimTelegramAction at h
  split at h
  · cases h
  · rename_i row hget
    split_ifs at h with hc
    · cases h
      exact ⟨row, hget, hc.2.1, hc.2.2.1, rfl⟩
    · cases h

theorem claimTelegramAction_lost (h : s.claimTelegramAction bot id delivery = (s', false)) :
    s' = s := by
  unfold claimTelegramAction at h
  split at h
  · exact (Prod.mk.inj h).1.symm
  · split_ifs at h
    · cases h
    · exact (Prod.mk.inj h).1.symm

theorem finishTelegramUpdate_done (h : s.finishTelegramUpdate bot id status = .ok (s', true)) :
    ∃ row, s.updates.get (bot, id) = some row ∧
      s'.updates = s.updates.put { row with outcome := some status } := by
  unfold finishTelegramUpdate at h
  split_ifs at h
  split at h
  · cases h
  · split_ifs at h
    · cases h
      exact ⟨_, ‹_›, rfl⟩
    · cases h

theorem finishTelegramUpdate_kept (h : s.finishTelegramUpdate bot id status = .ok (s', false)) :
    s' = s := by
  unfold finishTelegramUpdate at h
  split_ifs at h
  split at h
  · cases h
    rfl
  · split_ifs at h
    · cases h
    · cases h
      rfl

theorem mem_messageRows : row ∈ s.messageRows bot chat messageId ↔
    row ∈ s.outbox.rows ∧
      (∃ notice ∈ s.notices.rows, notice.deliveryId = row.id ∧ notice.active = true) ∧
      (∀ used ∈ s.updates.rows, used.deliveryId ≠ some row.id) ∧
      row.destination.botId = bot ∧ row.destination.chatId = chat ∧ messageId ∈ row.messageIds := by
  simp only [messageRows, List.mem_flatMap, List.mem_filter, List.mem_map, Bool.and_eq_true,
    decide_eq_true_eq, List.all_eq_true, List.contains_iff_mem]
  constructor
  · rintro ⟨_, hrow, ⟨notice, ⟨hn, hid, ha⟩, rfl⟩, ⟨⟨hunused, hbot⟩, hchat⟩, hm⟩
    exact ⟨hrow, ⟨notice, hn, hid, ha⟩, hunused, hbot, hchat, hm⟩
  · rintro ⟨hrow, ⟨notice, hn, hid, ha⟩, hunused, hbot, hchat, hm⟩
    exact ⟨row, hrow, ⟨notice, ⟨hn, hid, ha⟩, rfl⟩, ⟨⟨hunused, hbot⟩, hchat⟩, hm⟩

theorem telegramMessage_eq_some (h : s.telegramMessage bot chat messageId = .ok (some row)) :
    row ∈ s.messageRows bot chat messageId ∧ row.Valid := by
  unfold telegramMessage at h
  split at h
  · cases h
  · rename_i r hrows
    split_ifs at h with hc
    cases h
    rw [hrows]
    exact ⟨List.mem_singleton_self row, hc.1⟩
  · cases h

end Store

theorem pointedMessage_eq_ok (h : pointedMessage config bot update p = .ok (chat, messageId)) :
    chatOf update p = some chat ∧ (p.message.index "message_id").asI64 = some messageId := by
  unfold pointedMessage at h
  obtain ⟨c, hc, h⟩ := bind_eq_ok.mp h
  rw [okOr_eq_ok] at hc
  split_ifs at h
  · obtain ⟨m, hm, h⟩ := bind_eq_ok.mp h
    rw [okOr_eq_ok, Option.filter_eq_some_iff] at hm
    obtain ⟨rfl, rfl⟩ := Prod.mk.inj (Except.ok.inj h)
    exact ⟨hc, hm.1⟩

theorem checkRow_eq_ok (h : checkRow update p chat messageId row = .ok expected) :
    ((p.message.index "chat").index "id").asI64 = some chat ∧
      (p.message.index "message_thread_id").asI64 = row.destination.topicId ∧
      (p.callback = none →
        ((update.index "message").index "message_thread_id").asI64 = row.destination.topicId) ∧
      row.complete = true ∧
      (p.callback.isSome = true → row.messageIds.getLast? = some messageId) := by
  unfold checkRow at h
  split_ifs at h with hchat hreply hcomplete hlast
  push Not at hchat hreply hlast
  refine ⟨hchat.1, hchat.2, fun hnone => hreply (by rw [hnone]; rfl), ?_, hlast⟩
  simpa using hcomplete

/-- What is admitted comes from one current row. -/
theorem admitUpdate_eq_ok (h : admitUpdate s config bot update = .ok action) :
    ∃ p messageId row, pointed update = .ok p ∧ action.deliveryId = row.id ∧
      CurrentDelivery s bot update p messageId row := by
  unfold admitUpdate at h
  obtain ⟨updateId, -, h⟩ := bind_eq_ok.mp h
  obtain ⟨p, hp, h⟩ := bind_eq_ok.mp h
  obtain ⟨⟨chat, messageId⟩, hpoint, h⟩ := bind_eq_ok.mp h
  obtain ⟨found, hfound, h⟩ := bind_eq_ok.mp h
  obtain ⟨row, hrow, h⟩ := bind_eq_ok.mp h
  obtain ⟨expected, hcheck, h⟩ := bind_eq_ok.mp h
  obtain ⟨request, -, h⟩ := bind_eq_ok.mp h
  obtain rfl := Except.ok.inj h
  rw [okOr_eq_ok.mp hrow] at hfound
  obtain ⟨hmem, hvalid⟩ := Store.telegramMessage_eq_some hfound
  obtain ⟨hstored, hactive, hunused, hbot, rfl, hconfirmed⟩ := Store.mem_messageRows.mp hmem
  obtain ⟨hchat, hmessage⟩ := pointedMessage_eq_ok hpoint
  obtain ⟨hmchat, htopic, hreply, hcomplete, hlast⟩ := checkRow_eq_ok hcheck
  exact ⟨p, messageId, row, hp, rfl, hstored, hvalid, hcomplete, hactive, hunused, hbot, hchat,
    hmchat, htopic, hreply, hmessage, hconfirmed, hlast⟩

end Lemmas

end Agend.Telegram
