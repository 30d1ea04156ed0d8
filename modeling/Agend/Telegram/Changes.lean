import Agend.Telegram.Outbox
import Agend.Library.Except
import Mathlib.Logic.Relation

/-! What a call of the outbox can do to the tables, one row at a time. -/
namespace Agend.Telegram

open Client Library Relation

section Rows

variable {row row' : TelegramDelivery}

/-- A row of which nothing was sent yet. -/
structure Unsent (row : TelegramDelivery) : Prop where
  next : row.nextPart = 0
  flight : row.inFlight = false

/-- What no call changes in a stored row. -/
structure Later (row row' : TelegramDelivery) : Prop where
  id : row'.id = row.id
  destination : row'.destination = row.destination
  notification : row'.notification = row.notification
  parts : row'.parts = row.parts
  abandoned : row.abandoned = true → row'.abandoned = true
  settled : row.Settled → row'.Settled

/-- What only a claim or a receipt changes. -/
structure Idle (row row' : TelegramDelivery) : Prop extends Later row row' where
  next : row'.nextPart = row.nextPart
  flight : row'.inFlight = row.inFlight
  messages : row'.messageIds = row.messageIds

theorem Later.refl : Later row row :=
  ⟨rfl, rfl, rfl, rfl, fun h => h, fun h => h⟩

theorem Later.trans {row1 : TelegramDelivery} (h : Later row row1) (h' : Later row1 row') :
    Later row row' :=
  ⟨h'.id.trans h.id, h'.destination.trans h.destination, h'.notification.trans h.notification,
    h'.parts.trans h.parts, fun ha => h'.abandoned (h.abandoned ha),
    fun hs => h'.settled (h.settled hs)⟩

theorem Idle.refl : Idle row row :=
  ⟨.refl, rfl, rfl, rfl⟩

theorem Idle.trans {row1 : TelegramDelivery} (h : Idle row row1) (h' : Idle row1 row') :
    Idle row row' :=
  ⟨h.toLater.trans h'.toLater, h'.next.trans h.next, h'.flight.trans h.flight,
    h'.messages.trans h.messages⟩

end Rows

/-- One write apart from a claim and a receipt. -/
inductive Change (s : Store) : Store → Prop
  | unknown {row : TelegramDelivery} (h : s.outbox.get row.id = some row) (hf : row.inFlight = true)
      (hv : ({ row with outcomeUnknown := true } : TelegramDelivery).Valid) :
      Change s { s with outbox := s.outbox.put { row with outcomeUnknown := true } }
  | recovered : Change s s.recoverTelegramAttempts
  | givenUp {row : TelegramDelivery} (h : s.outbox.get row.id = some row) (hc : row.complete = false)
      (hv : ({ row with abandoned := true } : TelegramDelivery).Valid) :
      Change s { s with outbox := s.outbox.put { row with abandoned := true } }
  | dropped {row : TelegramDelivery} {reason : String} (h : s.outbox.get row.id = some row)
      (hu : row.outcomeUnknown = true)
      (hv : ({ row with abandoned := true, abandonedByOperator := some reason } :
        TelegramDelivery).Valid) :
      Change s { s with
        outbox := s.outbox.put { row with abandoned := true, abandonedByOperator := some reason } }
  | added {row : TelegramDelivery} (h : s.outbox.get row.id = none) (hv : row.Valid) (hn : Unsent row) :
      Change s { s with outbox := s.outbox.put row }
  | allotted {row : TelegramDelivery} {key : String} (h : s.outbox.get row.id = none) (hv : row.Valid) (hn : Unsent row)
      (hold : ∀ old, s.notices.get key = some old → ∀ r, s.outbox.get old.deliveryId = some r →
        r.Settled) :
      Change s { s with
        outbox := s.outbox.put row
        notices := s.notices.put ⟨key, row.id, true⟩ }
  | closed {key : String}
      (hold : ∀ old, s.notices.get key = some old → ∀ r, s.outbox.get old.deliveryId = some r →
        r.Settled) :
      Change s (s.deactivate key)

variable {s s' : Store} {id : String} {row row' : TelegramDelivery} {op : Operation}
  {reply : Reply}

namespace Store

theorem load_eq_some (h : s.load id = .ok (some row)) : s.outbox.get id = some row ∧ row.Valid := by
  unfold load at h
  split at h
  · cases h
  · split_ifs at h with hv
    cases h
    exact ⟨‹_›, hv⟩

theorem load_eq_none (h : s.load id = .ok none) : s.outbox.get id = none := by
  unfold load at h
  split at h
  · assumption
  · split_ifs at h
    cases h

theorem id_of_get (h : s.outbox.get id = some row) : row.id = id :=
  (Table.get_eq_some.mp h).2

theorem save_eq_ok {r : TelegramDelivery} (h : s.save row = .ok s')
    (hget : s.outbox.get r.id = some r) (hid : row.id = r.id) :
    row.Valid ∧ s' = { s with outbox := s.outbox.put row } := by
  unfold save at h
  split_ifs at h with hv
  rw [hid, hget] at h
  exact ⟨hv, (Except.ok.inj h).symm⟩

theorem insert_eq_ok (h : s.insert row = .ok s') :
    s.outbox.get row.id = none ∧ s' = { s with outbox := s.outbox.put row } := by
  unfold insert at h
  split at h
  · exact ⟨‹_›, (Except.ok.inj h).symm⟩
  · cases h

/-- A row that is given up is settled; the rest of the tables stays. -/
theorem giveUp_eq_ok {existing : Option TelegramDelivery}
    (hex : ∀ row ∈ existing, s.outbox.get row.id = some row) (h : s.giveUp existing = .ok s') :
    ReflTransGen Change s s' ∧ s'.notices = s.notices ∧
      (∀ row ∈ existing, ∀ r, s'.outbox.get row.id = some r → r.Settled) ∧
      ∀ id, s.outbox.get id = none → s'.outbox.get id = none := by
  unfold giveUp at h
  split at h
  · obtain rfl := Except.ok.inj h
    exact ⟨.refl, rfl, fun _ h => (by cases h), fun _ h => h⟩
  · rename_i row
    have hget := hex row rfl
    split_ifs at h with hc
    · obtain rfl := Except.ok.inj h
      refine ⟨.refl, rfl, ?_, fun _ h => h⟩
      rintro _ ⟨⟩ r hr
      rw [hget] at hr
      exact Or.inl (Option.some.inj hr ▸ hc)
    · obtain ⟨hv, rfl⟩ := save_eq_ok h hget rfl
      refine ⟨.single (.givenUp hget (Bool.eq_false_iff.mpr hc) hv), rfl, ?_, ?_⟩
      · rintro _ ⟨⟩ r hr
        rw [Table.get_put, if_pos rfl] at hr
        exact Or.inr (Option.some.inj hr ▸ rfl)
      · intro id hid
        rw [Table.get_put, if_neg, hid]
        rintro rfl
        rw [hget] at hid
        cases hid

theorem get_deactivate {key k : String} : (s.deactivate key).notices.get k =
    (s.notices.get k).map fun notice =>
      if notice.sourceId = key then { notice with active := false } else notice := by
  rw [deactivate, Table.get_update]

end Store

open Store

/-- What a claim answers and does. -/
theorem exec_claim {part : Nat} (h : s.exec (.claim id part) = .ok (s', reply)) :
    reply = .bool false ∧ s' = s ∨
    reply = .bool true ∧ ∃ row, s.outbox.get id = some row ∧ row.nextPart = part ∧
      row.inFlight = false ∧ row.complete = false ∧ row.abandoned = false ∧
      ({ row with inFlight := true } : TelegramDelivery).Valid ∧
      s' = { s with outbox := s.outbox.put { row with inFlight := true } } := by
  rw [exec, map_eq_ok] at h
  obtain ⟨⟨s1, b⟩, h, he⟩ := h
  obtain ⟨rfl, rfl⟩ := Prod.mk.inj he
  rw [claimTelegramPart, bind_eq_ok] at h
  obtain ⟨loaded, hload, h⟩ := h
  cases loaded with
  | none =>
    cases h
    exact Or.inl ⟨rfl, rfl⟩
  | some row =>
    obtain ⟨hget, hvalid⟩ := load_eq_some hload
    obtain rfl := id_of_get hget
    simp only at h
    split_ifs at h with hguard
    · cases h
      exact Or.inl ⟨rfl, rfl⟩
    · rw [bind_eq_ok] at h
      obtain ⟨s2, hsave, h⟩ := h
      cases h
      obtain ⟨hv, rfl⟩ := save_eq_ok hsave hget rfl
      simp only [Bool.or_eq_true, not_or, Bool.not_eq_true, decide_eq_true_eq, ne_eq,
        not_not] at hguard
      obtain ⟨⟨⟨hn, hf⟩, hc⟩, ha⟩ := hguard
      exact Or.inr ⟨rfl, row, hget, hn, hf, hc, ha, hv, rfl⟩

/-- What a receipt answers and does. -/
theorem exec_confirm {part : Nat} {messageId : Int}
    (h : s.exec (.confirm id part messageId) = .ok (s', reply)) :
    reply = .bool false ∧ s' = s ∨
    reply = .bool true ∧ ∃ row row', s.outbox.get id = some row ∧ row.nextPart = part ∧
      row.inFlight = true ∧ row.abandoned = false ∧ messageId ∉ row.messageIds ∧ row'.Valid ∧
      row' = { row with
        nextPart := row.nextPart + 1
        inFlight := false
        outcomeUnknown := false
        messageIds := row.messageIds ++ [messageId] } ∧
      s' = { s with outbox := s.outbox.put row' } := by
  rw [exec, map_eq_ok] at h
  obtain ⟨⟨s1, b⟩, h, he⟩ := h
  obtain ⟨rfl, rfl⟩ := Prod.mk.inj he
  rw [confirmTelegramPart, bind_eq_ok] at h
  obtain ⟨loaded, hload, h⟩ := h
  cases loaded with
  | none =>
    cases h
    exact Or.inl ⟨rfl, rfl⟩
  | some row =>
    obtain ⟨hget, hvalid⟩ := load_eq_some hload
    obtain rfl := id_of_get hget
    simp only at h
    split_ifs at h with hguard
    · cases h
      exact Or.inl ⟨rfl, rfl⟩
    · rw [bind_eq_ok] at h
      obtain ⟨s2, hsave, h⟩ := h
      cases h
      obtain ⟨hv, rfl⟩ := save_eq_ok hsave hget rfl
      simp only [Bool.or_eq_true, not_or, Bool.not_eq_true, decide_eq_true_eq, ne_eq, not_not,
        Bool.not_eq_eq_eq_not, List.contains_iff_mem, Bool.not_true, Bool.not_eq_false] at hguard
      obtain ⟨⟨⟨⟨hn, hf⟩, ha⟩, -⟩, hm⟩ := hguard
      exact Or.inr ⟨rfl, row, _, hget, hn, hf, ha, by simpa using hm, hv, rfl, rfl⟩

/-- Every stored row is valid. -/
def Store.AllValid (s : Store) : Prop :=
  ∀ id row, s.outbox.get id = some row → row.Valid

theorem Unsent.messageIds (h : Unsent row) (hv : row.Valid) : row.messageIds = [] :=
  List.length_eq_zero_iff.mp (hv.messages.trans h.next)

/-- A rewritten row under its own id. -/
theorem exists_idle_put {r r' : TelegramDelivery} (hr : s.outbox.get r.id = some r)
    (hidle : Idle r r') (hget : s.outbox.get id = some row) :
    ∃ row', (s.outbox.put r').get id = some row' ∧ Idle row row' := by
  rw [Table.get_put, hidle.id]
  split_ifs with hid
  · rw [hid, hr] at hget
    exact ⟨r', rfl, Option.some.inj hget ▸ hidle⟩
  · exact ⟨row, hget, .refl⟩

/-- A new row leaves the others. -/
theorem exists_idle_new {r : TelegramDelivery} (hr : s.outbox.get r.id = none)
    (hget : s.outbox.get id = some row) :
    ∃ row', (s.outbox.put r).get id = some row' ∧ Idle row row' := by
  refine ⟨row, ?_, .refl⟩
  rw [Table.get_put, if_neg, hget]
  rintro rfl
  rw [hr] at hget
  cases hget

namespace Change

theorem exists_idle (h : Change s s') (hget : s.outbox.get id = some row) :
    ∃ row', s'.outbox.get id = some row' ∧ Idle row row' := by
  cases h with
  | unknown hr hf hv =>
    exact exists_idle_put hr ⟨⟨rfl, rfl, rfl, rfl, fun h => h, fun h => h⟩, rfl, rfl, rfl⟩ hget
  | recovered =>
    refine ⟨_, by rw [recoverTelegramAttempts, Table.get_update, hget]; rfl, ?_⟩
    simp only
    split_ifs
    · exact ⟨⟨rfl, rfl, rfl, rfl, fun h => h, fun h => h⟩, rfl, rfl, rfl⟩
    · exact .refl
  | givenUp hr hc hv =>
    exact exists_idle_put hr ⟨⟨rfl, rfl, rfl, rfl, fun _ => rfl, fun _ => Or.inr rfl⟩, rfl, rfl, rfl⟩
      hget
  | dropped hr hu hv =>
    exact exists_idle_put hr ⟨⟨rfl, rfl, rfl, rfl, fun _ => rfl, fun _ => Or.inr rfl⟩, rfl, rfl, rfl⟩
      hget
  | added hr hv hn => exact exists_idle_new hr hget
  | allotted hr hv hn hold => exact exists_idle_new hr hget
  | closed hold => exact ⟨row, hget, .refl⟩

theorem new {row' : TelegramDelivery} (h : Change s s') (hget : s'.outbox.get id = some row')
    (hnone : s.outbox.get id = none) : Unsent row' := by
  have hput : ∀ {r : TelegramDelivery}, (s.outbox.put r).get id = some row' → row' = r := by
    intro r hr
    rw [Table.get_put, hnone] at hr
    split_ifs at hr
    exact (Option.some.inj hr).symm
  have hold : ∀ {r r' : TelegramDelivery}, (s.outbox.put r').get id = some row' →
      s.outbox.get r.id = some r → r'.id = r.id → Unsent row' := by
    intro r r' hr' hr hid
    have hrow := hput hr'
    rw [hrow, Table.get_put, hid] at hr'
    split_ifs at hr' with he
    · rw [he, hr] at hnone
      cases hnone
    · rw [hnone] at hr'
      cases hr'
  cases h with
  | unknown hr hf hv => exact hold hget hr rfl
  | recovered =>
    rw [recoverTelegramAttempts, Table.get_update, hnone] at hget
    cases hget
  | givenUp hr hc hv => exact hold hget hr rfl
  | dropped hr hu hv => exact hold hget hr rfl
  | added hr hv hn => exact hput hget ▸ hn
  | allotted hr hv hn _ => exact hput hget ▸ hn
  | closed _ =>
    rw [deactivate] at hget
    rw [hnone] at hget
    cases hget

theorem allValid (h : Change s s') (hs : s.AllValid) : s'.AllValid := by
  have hput : ∀ {r : TelegramDelivery}, r.Valid →
      ∀ id row, (s.outbox.put r).get id = some row → row.Valid := by
    intro r hr id row hget
    rw [Table.get_put] at hget
    split_ifs at hget
    · exact Option.some.inj hget ▸ hr
    · exact hs id row hget
  cases h with
  | unknown hr hf hv => exact hput hv
  | recovered =>
    intro id row hget
    rw [recoverTelegramAttempts, Table.get_update, Option.map_eq_some_iff] at hget
    obtain ⟨old, hold, rfl⟩ := hget
    have hv := hs id old hold
    split_ifs with hf
    · exact { hv with
        unknown := fun _ => hf
        operator := fun ho => ⟨(hv.operator ho).1, rfl⟩ }
    · exact hv
  | givenUp hr hc hv => exact hput hv
  | dropped hr hu hv => exact hput hv
  | added hr hv hn => exact hput hv
  | allotted hr hv hn _ => exact hput hv
  | closed _ => exact hs

end Change

/-- What a row is after the writes of a call. -/
theorem row_of_changes (h : ReflTransGen Change s s') (hget : s.outbox.get id = some row) :
    ∃ row', s'.outbox.get id = some row' ∧ Idle row row' := by
  induction h with
  | refl => exact ⟨row, hget, .refl⟩
  | tail _ hc ih =>
    obtain ⟨row1, hrow1, hidle⟩ := ih
    obtain ⟨row', hrow', hidle'⟩ := hc.exists_idle hrow1
    exact ⟨row', hrow', hidle.trans hidle'⟩

theorem allValid_of_changes (h : ReflTransGen Change s s') (hs : s.AllValid) : s'.AllValid := by
  induction h with
  | refl => exact hs
  | tail _ hc ih => exact hc.allValid ih

/-- A row that a call added is unsent. -/
theorem new_of_changes {row' : TelegramDelivery} (h : ReflTransGen Change s s')
    (hget : s'.outbox.get id = some row') (hnone : s.outbox.get id = none) : Unsent row' := by
  induction h generalizing row' with
  | refl =>
    rw [hnone] at hget
    cases hget
  | @tail s1 s2 _ hc ih =>
    cases hmid : s1.outbox.get id with
    | none => exact hc.new hget hmid
    | some row1 =>
      have hun := ih hmid
      obtain ⟨row2, hrow2, hidle⟩ := hc.exists_idle hmid
      rw [hget] at hrow2
      obtain rfl := Option.some.inj hrow2
      exact ⟨hidle.next.trans hun.next, hidle.flight.trans hun.flight⟩

/-- The row that stands for a notice, as a transaction loads it. -/
theorem load_existing {old : Option NoticeRow} {existing : Option TelegramDelivery}
    (h : s.loadOld old = .ok existing) :
    (∀ row ∈ existing, s.outbox.get row.id = some row) ∧
      ∀ n ∈ old, ∀ r, s.outbox.get n.deliveryId = some r → existing = some r := by
  cases old with
  | none =>
    obtain rfl := Except.ok.inj h
    exact ⟨fun _ h => (nomatch h), fun _ h => (nomatch h)⟩
  | some old =>
    cases existing with
    | none =>
      have hnone := load_eq_none h
      refine ⟨fun _ h => (nomatch h), ?_⟩
      rintro _ ⟨⟩ r hr
      rw [hnone] at hr
      cases hr
    | some row =>
      obtain ⟨hget, -⟩ := load_eq_some h
      refine ⟨?_, ?_⟩
      · rintro _ ⟨⟩
        rw [id_of_get hget, hget]
      · rintro _ ⟨⟩ r hr
        rw [← hget, hr]

/-- Giving up the loaded row settles whatever stands for the notice. -/
theorem settled_of_giveUp {old : Option NoticeRow} {existing : Option TelegramDelivery} {tx : Store}
    (hex : (∀ row ∈ existing, s.outbox.get row.id = some row) ∧
      ∀ n ∈ old, ∀ r, s.outbox.get n.deliveryId = some r → existing = some r)
    (h : s.giveUp existing = .ok tx) :
    ∀ n ∈ old, ∀ r, tx.outbox.get n.deliveryId = some r → r.Settled := by
  obtain ⟨-, -, hsettled, hnone⟩ := giveUp_eq_ok hex.1 h
  intro n hn r hr
  cases hget : s.outbox.get n.deliveryId with
  | none =>
    rw [hnone _ hget] at hr
    cases hr
  | some row =>
    have hrow := hex.2 n hn row hget
    exact hsettled row hrow r (by rw [id_of_get hget, hr])

/-- One notice of `observe`: it writes only to its own key. -/
theorem observeNotice_eq_ok {destination : TelegramDestination} {now : Nat} {o o' : Observing}
    {notice : TelegramNotice} {previous : List NoticeRow}
    (hprev : o.tx.notices.get notice.key = previous.find? (·.sourceId = notice.key))
    (hfresh : o.fresh.Nodup ∧ ∀ id ∈ o.fresh, o.tx.outbox.get id = none)
    (h : observeNotice previous destination now o notice = .ok o') :
    ReflTransGen Change o.tx o'.tx ∧
      (∀ k, k ≠ notice.key → o'.tx.notices.get k = o.tx.notices.get k) ∧
      o'.fresh.Nodup ∧ ∀ id ∈ o'.fresh, o'.tx.outbox.get id = none := by
  rw [observeNotice, bind_eq_ok] at h
  obtain ⟨existing, hload, h⟩ := h
  have hex := load_existing hload
  simp only at h
  split at h
  · cases h
    exact ⟨.refl, fun _ _ => rfl, hfresh⟩
  · rw [bind_eq_ok] at h
    obtain ⟨tx, hgive, h⟩ := h
    have hsettled := settled_of_giveUp hex hgive
    obtain ⟨hchanges, hnotices, -, hnone⟩ := giveUp_eq_ok hex.1 hgive
    split at h
    · cases h
    · rename_i id fresh hids
      rw [hids] at hfresh
      obtain ⟨hnodup, hids⟩ := hfresh
      obtain ⟨hid, hfresh⟩ := List.nodup_cons.mp hnodup
      split_ifs at h with hv
      rw [bind_eq_ok] at h
      obtain ⟨tx', hinsert, h⟩ := h
      obtain ⟨hget, rfl⟩ := insert_eq_ok hinsert
      cases h
      refine ⟨hchanges.tail (.allotted hget hv ⟨rfl, rfl⟩ ?_), ?_, hfresh, ?_⟩
      · intro old hold r hr
        rw [hnotices, hprev] at hold
        exact hsettled old hold r hr
      · intro k hk
        simp only [Table.get_put, hnotices]
        exact if_neg hk
      · intro j hj
        have hne : j ≠ (notice.row destination now id).id := by
          rintro rfl
          exact hid hj
        simp only [Table.get_put, if_neg hne]
        exact hnone j (hids j (List.mem_cons_of_mem _ hj))

/-- One previous notice of `observe`: it is closed if it is no longer observed. -/
theorem closeNotice_eq_ok {keys : List String} {tx tx' : Store} {old : NoticeRow}
    (hprev : old.sourceId ∉ keys → tx.notices.get old.sourceId = some old)
    (h : closeNotice keys tx old = .ok tx') :
    ReflTransGen Change tx tx' ∧
      (∀ k, k ≠ old.sourceId → tx'.notices.get k = tx.notices.get k) ∧
      (old.sourceId ∉ keys → ∀ n, tx'.notices.get old.sourceId = some n → n.active = false) := by
  unfold closeNotice at h
  split_ifs at h with hclose
  · simp only [Bool.and_eq_true, Bool.not_eq_true', List.contains_eq_mem,
      decide_eq_false_iff_not] at hclose
    rw [bind_eq_ok] at h
    obtain ⟨existing, hload, h⟩ := h
    rw [bind_eq_ok] at h
    obtain ⟨tx1, hgive, h⟩ := h
    cases h
    have hex := load_existing hload
    have hsettled := settled_of_giveUp hex hgive
    obtain ⟨hchanges, hnotices, -, -⟩ := giveUp_eq_ok hex.1 hgive
    refine ⟨hchanges.tail (.closed ?_), ?_, ?_⟩
    · intro n hn r hr
      rw [hnotices, hprev hclose.2] at hn
      exact hsettled n hn r hr
    · intro k hk
      rw [get_deactivate, hnotices]
      cases hget : tx.notices.get k with
      | none => rfl
      | some n =>
        have hid : n.sourceId ≠ old.sourceId := by
          rw [(Table.get_eq_some.mp hget).2]
          exact hk
        rw [Option.map_some, if_neg hid]
    · intro _ n hn
      rw [get_deactivate, hnotices, hprev hclose.2, Option.map_some, if_pos rfl] at hn
      exact (Option.some.inj hn) ▸ rfl
  · cases h
    refine ⟨.refl, fun _ _ => rfl, fun hk n hn => ?_⟩
    rw [hprev hk] at hn
    rw [← Option.some.inj hn, Bool.eq_false_iff]
    intro hactive
    exact hclose (by simpa [hactive] using hk)

/-- What `observe` does: writes one row at a time, and no notice it left out stays active. -/
theorem observe_eq_ok {notices : List TelegramNotice} {destination : TelegramDestination}
    {now : Nat} {fresh : List String} {rows : List TelegramDelivery}
    (hfresh : Operation.Fresh s (.observe notices destination now fresh))
    (h : s.observeTelegram notices destination now fresh = .ok (s', rows)) :
    ReflTransGen Change s s' ∧
      ∀ k ∉ notices.map (·.key), ∀ n, s'.notices.get k = some n → n.active = false := by
  unfold observeTelegram at h
  simp only at h
  split_ifs at h with hkeys
  simp only [Bool.or_eq_true, not_or, decide_eq_true_eq, not_not] at hkeys
  obtain ⟨-, hnodup⟩ := hkeys
  rw [bind_eq_ok] at h
  obtain ⟨o, hfirst, h⟩ := h
  rw [bind_eq_ok] at h
  obtain ⟨tx, hsecond, h⟩ := h
  cases h
  have hone := foldlM_rule (b := ⟨s, [], fresh⟩) (P := fun done (o : Observing) => ReflTransGen Change s o.tx ∧
      (∀ k, k ∉ done.map (·.key) → o.tx.notices.get k = s.notices.get k) ∧
      o.fresh.Nodup ∧ ∀ id ∈ o.fresh, o.tx.outbox.get id = none) (by
    intro done notice rest o o' hl ⟨hchanges, hsame, hids⟩ hstep
    have hnew : notice.key ∉ done.map (·.key) := by
      rw [hl, List.map_append, List.map_cons] at hnodup
      intro hmem
      exact (List.nodup_append.mp hnodup).2.2 _ hmem _ List.mem_cons_self rfl
    obtain ⟨hmore, hother, hids'⟩ := observeNotice_eq_ok (hsame _ hnew) hids hstep
    refine ⟨hchanges.trans hmore, fun k hk => ?_, hids'⟩
    rw [List.map_append, List.mem_append, not_or] at hk
    rw [hother k (by simpa using hk.2), hsame k hk.1]) ⟨.refl, fun _ _ => rfl, hfresh⟩ hfirst
  obtain ⟨hchanges, hsame, -⟩ := hone
  have htwo := foldlM_rule (P := fun done (tx : Store) => ReflTransGen Change s tx ∧
      (∀ k, k ∉ notices.map (·.key) → k ∉ done.map NoticeRow.sourceId →
        tx.notices.get k = s.notices.get k) ∧
      ∀ k, k ∉ notices.map (·.key) → k ∈ done.map NoticeRow.sourceId →
        ∀ n, tx.notices.get k = some n → n.active = false) (by
    intro done old rest tx tx' hl ⟨hchanges, hsame, hclosed⟩ hstep
    have hnew : old.sourceId ∉ done.map NoticeRow.sourceId := by
      have hrows := s.notices.nodup
      rw [hl, List.map_append, List.map_cons] at hrows
      intro hmem
      exact (List.nodup_append.mp hrows).2.2 _ hmem _ List.mem_cons_self rfl
    have hprev : old.sourceId ∉ notices.map (·.key) →
        tx.notices.get old.sourceId = some old := fun hk => by
      rw [hsame _ hk hnew]
      exact Table.get_of_mem (by rw [hl]; simp)
    obtain ⟨hmore, hother, hdone⟩ := closeNotice_eq_ok hprev hstep
    refine ⟨hchanges.trans hmore, fun k hk hkd => ?_, fun k hk hkd n hn => ?_⟩
    · rw [List.map_append, List.mem_append, not_or] at hkd
      rw [hother k (by simpa using hkd.2), hsame k hk hkd.1]
    · by_cases he : k = old.sourceId
      · subst he
        exact hdone hk n hn
      · rw [List.map_append, List.mem_append] at hkd
        rw [hother k he] at hn
        exact hclosed k hk (hkd.resolve_right (by simpa using he)) n hn)
    ⟨hchanges, fun k hk _ => hsame k hk, fun _ _ h => (nomatch h)⟩ hsecond
  obtain ⟨hall, hkept, hclosed⟩ := htwo
  refine ⟨hall, fun k hk n hn => ?_⟩
  by_cases hmem : k ∈ s.notices.rows.map NoticeRow.sourceId
  · exact hclosed k hk hmem n hn
  · rw [hkept k hk hmem, Table.get_eq_some] at hn
    exact absurd (List.mem_map.mpr ⟨n, hn.1, hn.2⟩) hmem

/-- Calls other than a claim and a receipt. -/
def Operation.quiet : Operation → Bool
  | .claim .. | .confirm .. => false
  | _ => true

/-- Any other call is a sequence of writes. -/
theorem exec_changes (hq : op.quiet = true) (hfresh : op.Fresh s)
    (h : s.exec op = .ok (s', reply)) : ReflTransGen Change s s' := by
  cases op with
  | claim | confirm => cases hq
  | recover =>
    cases h
    exact .single .recovered
  | observe notices destination now fresh =>
    rw [exec, map_eq_ok] at h
    obtain ⟨⟨s1, rows⟩, h, he⟩ := h
    cases he
    exact (observe_eq_ok hfresh h).1
  | enqueue delivery =>
    rw [exec, map_eq_ok] at h
    obtain ⟨⟨s1, row⟩, h, he⟩ := h
    cases he
    unfold enqueueTelegram at h
    split_ifs at h with hguard
    rw [bind_eq_ok] at h
    obtain ⟨loaded, -, h⟩ := h
    cases loaded with
    | some old =>
      simp only at h
      split_ifs at h
      cases h
      exact .refl
    | none =>
      rw [bind_eq_ok] at h
      obtain ⟨s2, hinsert, h⟩ := h
      cases h
      obtain ⟨hnone, rfl⟩ := insert_eq_ok hinsert
      exact .single (.added hnone hguard.1 ⟨hguard.2.1, hguard.2.2.1⟩)
  | markUnknown id =>
    rw [exec, map_eq_ok] at h
    obtain ⟨s1, h, he⟩ := h
    cases he
    rw [markTelegramUnknown, bind_eq_ok] at h
    obtain ⟨loaded, hload, h⟩ := h
    cases loaded with
    | none =>
      cases h
      exact .refl
    | some row =>
      obtain ⟨hget, -⟩ := load_eq_some hload
      obtain rfl := id_of_get hget
      simp only at h
      split_ifs at h with hf
      · obtain ⟨hv, rfl⟩ := save_eq_ok h hget rfl
        exact .single (.unknown hget hf hv)
      · cases h
        exact .refl
  | abandonUnknown id reason =>
    rw [exec, map_eq_ok] at h
    obtain ⟨⟨s1, b⟩, h, he⟩ := h
    cases he
    unfold abandonUnknownTelegram at h
    split_ifs at h
    rw [bind_eq_ok] at h
    obtain ⟨loaded, hload, h⟩ := h
    cases loaded with
    | none =>
      cases h
      exact .refl
    | some row =>
      obtain ⟨hget, -⟩ := load_eq_some hload
      obtain rfl := id_of_get hget
      simp only at h
      split_ifs at h with hguard
      · cases h
        exact .refl
      · rw [bind_eq_ok] at h
        obtain ⟨s2, hsave, h⟩ := h
        cases h
        obtain ⟨hv, rfl⟩ := save_eq_ok hsave hget rfl
        simp only [Bool.or_eq_true, not_or, Bool.not_eq_true', Bool.not_eq_false] at hguard
        exact .single (.dropped hget hguard.1 hv)

end Agend.Telegram
