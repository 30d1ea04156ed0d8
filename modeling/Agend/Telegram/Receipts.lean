import Agend.Telegram.Changes
import Agend.Telegram.Parts

/-! No part is sent twice or out of order, whatever the order of the calls. -/
namespace Agend.Telegram

open Client Library Relation

/-- A call of the outbox with the tables around it. -/
abbrev Call : Type :=
  Transition Store Operation (Except String Reply)

/-- The claim of a part succeeded. -/
def Claimed (id : String) (part : Nat) (t : Call) : Prop :=
  t.event = .claim id part ∧ t.output = .ok (.bool true)

/-- The receipt of a part was stored. -/
def Confirmed (id : String) (part : Nat) (messageId : Int) (t : Call) : Prop :=
  t.event = .confirm id part messageId ∧ t.output = .ok (.bool true)

/-- A successful observation that does not list the key. -/
def ObservedWithout (key : String) (t : Call) : Prop :=
  ∃ notices destination now fresh reply, t.event = .observe notices destination now fresh ∧
    t.output = .ok reply ∧ key ∉ notices.map (·.key)

/-- The parts and message ids confirmed so far, oldest first. -/
def receipts (id : String) : List Call → List (Nat × Int)
  | [] => []
  | t :: older => receipts id older ++
    match t.event, t.output with
    | .confirm id' part messageId, .ok (.bool true) => if id' = id then [(part, messageId)] else []
    | _, _ => []

/-- The delivery stood for the notice key at some time. -/
def Allotted (h : List Call) (key id : String) : Prop :=
  ∃ t ∈ h, ∃ notice, t.after.notices.get key = some notice ∧ notice.deliveryId = id

variable {s s' : Store} {id key : String} {row : TelegramDelivery} {op : Operation}
  {out : Except String Reply} {h : List Call} {part : Nat} {messageId : Int}

theorem Allotted.cons {t : Call} (ha : Allotted h key id) : Allotted (t :: h) key id := by
  obtain ⟨t', ht, hn⟩ := ha
  exact ⟨t', List.mem_cons_of_mem _ ht, hn⟩

/-- What a call did: it claimed a part, stored a receipt, or neither. -/
theorem step_cases (hs : outbox.step s op s' out) :
    (∃ id part row, op = .claim id part ∧ out = .ok (.bool true) ∧ s.outbox.get id = some row ∧
      row.nextPart = part ∧ row.inFlight = false ∧ row.complete = false ∧ row.abandoned = false ∧
      ({ row with inFlight := true } : TelegramDelivery).Valid ∧
      s' = { s with outbox := s.outbox.put { row with inFlight := true } }) ∨
    (∃ id part messageId row row', op = .confirm id part messageId ∧ out = .ok (.bool true) ∧
      s.outbox.get id = some row ∧ row.nextPart = part ∧ row.inFlight = true ∧
      row.abandoned = false ∧ messageId ∉ row.messageIds ∧ row'.Valid ∧
      row' = { row with
        nextPart := row.nextPart + 1
        inFlight := false
        outcomeUnknown := false
        messageIds := row.messageIds ++ [messageId] } ∧
      s' = { s with outbox := s.outbox.put row' }) ∨
    (ReflTransGen Change s s' ∧ (∀ id part, ¬ Claimed id part ⟨s, op, s', out⟩) ∧
      ∀ id part messageId, ¬ Confirmed id part messageId ⟨s, op, s', out⟩) := by
  obtain ⟨hfresh, hcall⟩ := hs
  unfold Store.call at hcall
  split at hcall
  · rename_i s1 reply hexec
    obtain ⟨rfl, rfl⟩ := Prod.mk.inj hcall
    by_cases hq : op.quiet = true
    · refine Or.inr (Or.inr ⟨exec_changes hq hfresh hexec, ?_, ?_⟩)
      · rintro id part ⟨rfl, -⟩
        cases hq
      · rintro id part messageId ⟨rfl, -⟩
        cases hq
    · cases op with
      | claim id part =>
        rcases exec_claim hexec with ⟨rfl, rfl⟩ | ⟨rfl, row, hrow⟩
        · refine Or.inr (Or.inr ⟨.refl, ?_, ?_⟩)
          · rintro _ _ ⟨-, hb⟩
            cases hb
          · rintro _ _ _ ⟨he, -⟩
            cases he
        · exact Or.inl ⟨id, part, row, rfl, rfl, hrow⟩
      | confirm id part messageId =>
        rcases exec_confirm hexec with ⟨rfl, rfl⟩ | ⟨rfl, row, row', hrow⟩
        · refine Or.inr (Or.inr ⟨.refl, ?_, ?_⟩)
          · rintro _ _ ⟨he, -⟩
            cases he
          · rintro _ _ _ ⟨-, hb⟩
            cases hb
        · exact Or.inr (Or.inl ⟨id, part, messageId, row, row', rfl, rfl, hrow⟩)
      | _ => exact absurd rfl hq
  · obtain ⟨rfl, rfl⟩ := Prod.mk.inj hcall
    refine Or.inr (Or.inr ⟨.refl, ?_, ?_⟩)
    · rintro _ _ ⟨-, hb⟩
      cases hb
    · rintro _ _ _ ⟨-, hb⟩
      cases hb

/-- A row stays, with what no call changes. -/
theorem exists_later (hs : outbox.step s op s' out) (hget : s.outbox.get id = some row) :
    ∃ row', s'.outbox.get id = some row' ∧ Later row row' := by
  have hput : ∀ {r r' : TelegramDelivery}, s.outbox.get r.id = some r → Later r r' →
      ∃ row', (s.outbox.put r').get id = some row' ∧ Later row row' := by
    intro r r' hr hl
    rw [Table.get_put, hl.id]
    split_ifs with hid
    · rw [hid, hr] at hget
      exact ⟨r', rfl, Option.some.inj hget ▸ hl⟩
    · exact ⟨row, hget, .refl⟩
  rcases step_cases hs with ⟨id1, part, r, -, -, hr, -, -, hc, ha, -, rfl⟩ |
    ⟨id1, part, m, r, r', -, -, hr, -, hf, ha, -, -, rfl, rfl⟩ | ⟨hc, -, -⟩
  · obtain rfl := Store.id_of_get hr
    refine hput hr ⟨rfl, rfl, rfl, rfl, fun h => h, ?_⟩
    rintro (hset | hset)
    · rw [hc] at hset
      cases hset
    · exact Or.inr hset
  · obtain rfl := Store.id_of_get hr
    refine hput hr ⟨rfl, rfl, rfl, rfl, fun h => h, ?_⟩
    rintro (hset | hset)
    · rw [TelegramDelivery.complete, hf] at hset
      simp at hset
    · exact Or.inr hset
  · obtain ⟨row', hrow', hidle⟩ := row_of_changes hc hget
    exact ⟨row', hrow', hidle.toLater⟩

theorem allValid_step (hs : outbox.step s op s' out) (hv : s.AllValid) : s'.AllValid := by
  have hput : ∀ {r : TelegramDelivery}, r.Valid →
      ∀ id row, (s.outbox.put r).get id = some row → row.Valid := by
    intro r hr id row hget
    rw [Table.get_put] at hget
    split_ifs at hget
    · exact Option.some.inj hget ▸ hr
    · exact hv id row hget
  rcases step_cases hs with ⟨_, _, _, -, -, -, -, -, -, -, hr, rfl⟩ |
    ⟨_, _, _, _, _, -, -, -, -, -, -, -, hr, -, rfl⟩ | ⟨hc, -, -⟩
  · exact hput hr
  · exact hput hr
  · exact allValid_of_changes hc hv

theorem allValid_of_reachable (hr : outbox.Reachable s) : s.AllValid := by
  refine hr.invariant (P := Store.AllValid) ?_ fun _ _ _ _ hv hs => allValid_step hs hv
  rintro s rfl id row hget
  cases hget

/-- The row has reached the part: it was claimed or is confirmed. -/
def Reached (id : String) (part : Nat) (s : Store) : Prop :=
  ∃ row, s.outbox.get id = some row ∧
    (part < row.nextPart ∨ row.nextPart = part ∧ row.inFlight = true)

theorem reached_of_claimed (hs : outbox.step s op s' out)
    (hc : Claimed id part ⟨s, op, s', out⟩) : Reached id part s' := by
  obtain ⟨rfl, rfl⟩ := hc
  rcases step_cases hs with ⟨_, _, row, he, -, hget, hn, -, -, -, -, rfl⟩ |
    ⟨_, _, _, _, _, he, -⟩ | ⟨-, hno, -⟩
  · cases he
    obtain rfl := Store.id_of_get hget
    exact ⟨_, Table.get_put_self, Or.inr ⟨hn, rfl⟩⟩
  · cases he
  · exact absurd ⟨rfl, rfl⟩ (hno id part)

theorem Reached.step (h : Reached id part s) (hs : outbox.step s op s' out) :
    Reached id part s' := by
  obtain ⟨row, hget, hor⟩ := h
  rcases step_cases hs with ⟨id1, _, r, -, -, hr, -, hf, -, -, -, rfl⟩ |
    ⟨id1, _, _, r, _, -, -, hr, -, -, -, -, -, rfl, rfl⟩ | ⟨hc, -, -⟩
  · obtain rfl := Store.id_of_get hr
    by_cases hid : id = r.id
    · subst hid
      rw [hr] at hget
      obtain rfl := Option.some.inj hget
      rw [hf] at hor
      exact ⟨_, Table.get_put_self, hor.imp_right fun h => by cases h.2⟩
    · exact ⟨row, by rw [Table.get_put_of_ne]; exacts [hget, hid], hor⟩
  · obtain rfl := Store.id_of_get hr
    by_cases hid : id = r.id
    · subst hid
      rw [hr] at hget
      obtain rfl := Option.some.inj hget
      refine ⟨_, Table.get_put_self, Or.inl ?_⟩
      show part < r.nextPart + 1
      omega
    · exact ⟨row, by rw [Table.get_put_of_ne]; exacts [hget, hid], hor⟩
  · obtain ⟨row', hrow', hidle⟩ := row_of_changes hc hget
    exact ⟨row', hrow', by rw [hidle.next, hidle.flight]; exact hor⟩

theorem Reached.not_claimed (h : Reached id part s) (hs : outbox.step s op s' out) :
    ¬ Claimed id part ⟨s, op, s', out⟩ := by
  rintro ⟨rfl, rfl⟩
  obtain ⟨row, hget, hor⟩ := h
  rcases step_cases hs with ⟨_, _, r, he, -, hr, hn, hf, -, -, -, -⟩ |
    ⟨_, _, _, _, _, he, -⟩ | ⟨-, hno, -⟩
  · cases he
    rw [hget] at hr
    obtain rfl := Option.some.inj hr
    rw [hf] at hor
    rcases hor with hlt | ⟨-, hflight⟩
    · omega
    · cases hflight
  · cases he
  · exact hno id part ⟨rfl, rfl⟩

/-- The row was given up. -/
def GivenUp (id : String) (s : Store) : Prop :=
  ∃ row, s.outbox.get id = some row ∧ row.abandoned = true

theorem GivenUp.step (h : GivenUp id s) (hs : outbox.step s op s' out) : GivenUp id s' := by
  obtain ⟨row, hget, ha⟩ := h
  obtain ⟨row', hrow', hl⟩ := exists_later hs hget
  exact ⟨row', hrow', hl.abandoned ha⟩

theorem GivenUp.refused (h : GivenUp id s) (hs : outbox.step s op s' out) :
    ¬ (Claimed id part ⟨s, op, s', out⟩ ∨ Confirmed id part messageId ⟨s, op, s', out⟩) := by
  obtain ⟨row, hget, ha⟩ := h
  rcases step_cases hs with ⟨_, _, r, rfl, -, hr, -, -, -, hlive, -, -⟩ |
    ⟨_, _, _, r, _, rfl, -, hr, -, -, hlive, -, -, -, -⟩ | ⟨-, hno, hno'⟩
  · rintro (⟨he, -⟩ | ⟨he, -⟩)
    · cases he
      rw [hget] at hr
      rw [Option.some.inj hr, hlive] at ha
      cases ha
    · cases he
  · rintro (⟨he, -⟩ | ⟨he, -⟩)
    · cases he
    · cases he
      rw [hget] at hr
      rw [Option.some.inj hr, hlive] at ha
      cases ha
  · rintro (hc | hc)
    · exact hno _ _ hc
    · exact hno' _ _ _ hc

/-- What a row stores are the receipts so far, in order. -/
structure Receipted (receipts : List (Nat × Int)) (row : TelegramDelivery) : Prop where
  parts : receipts.map Prod.fst = List.range row.nextPart
  messages : receipts.map Prod.snd = row.messageIds
  nodup : row.messageIds.Nodup

theorem receipts_cons (hno : ∀ part messageId, ¬ Confirmed id part messageId ⟨s, op, s', out⟩) :
    receipts id (⟨s, op, s', out⟩ :: h) = receipts id h := by
  rw [receipts]
  split
  · rename_i id' part messageId he ho
    split_ifs with hid
    · subst hid
      exact absurd ⟨he, ho⟩ (hno part messageId)
    · exact List.append_nil _
  · exact List.append_nil _

/-- Receipts come from confirmations. -/
theorem exists_confirmed (hm : (part, messageId) ∈ receipts id h) :
    ∃ t ∈ h, Confirmed id part messageId t := by
  induction h with
  | nil => cases hm
  | cons t older ih =>
    rw [receipts, List.mem_append] at hm
    rcases hm with hm | hm
    · obtain ⟨t', ht', hc⟩ := ih hm
      exact ⟨t', List.mem_cons_of_mem _ ht', hc⟩
    · split at hm
      · rename_i id' part' messageId' he ho
        split_ifs at hm with hid
        · subst hid
          obtain ⟨rfl, rfl⟩ := Prod.mk.inj (List.mem_singleton.mp hm)
          exact ⟨t, List.mem_cons_self, he, ho⟩
        · cases hm
      · cases hm

/-- Rows hold their receipts, and what is not stored has none. -/
theorem receipted_of_run (hr : outbox.Run h s) (id : String) :
    (∀ row, s.outbox.get id = some row → Receipted (receipts id h) row) ∧
      (s.outbox.get id = none → receipts id h = []) := by
  induction hr with
  | start hs =>
    rw [hs]
    exact ⟨fun _ h => (by cases h), fun _ => rfl⟩
  | @snoc h s s' op out hr hs ih =>
    obtain ⟨hsome, hnone⟩ := ih
    have hv := allValid_of_reachable hr.reachable
    rcases step_cases hs with ⟨id1, _, r, rfl, -, hget, -, -, -, -, -, rfl⟩ |
      ⟨id1, part, m, r, _, rfl, rfl, hget, rfl, -, -, hm, -, rfl, rfl⟩ | ⟨hc, -, hno⟩
    · rw [receipts_cons]
      swap
      · rintro _ _ ⟨he, -⟩
        cases he
      obtain rfl := Store.id_of_get hget
      simp only [Table.get_put]
      split_ifs with hid
      · subst hid
        refine ⟨?_, fun he => by cases he⟩
        rintro _ ⟨⟩
        exact ⟨(hsome r hget).parts, (hsome r hget).messages, (hsome r hget).nodup⟩
      · exact ⟨hsome, hnone⟩
    · obtain rfl := Store.id_of_get hget
      by_cases hid : id = r.id
      · subst hid
        have hold := hsome r hget
        simp only [Table.get_put, if_true, receipts]
        refine ⟨?_, fun he => by cases he⟩
        rintro _ ⟨⟩
        refine ⟨?_, ?_, ?_⟩
        · rw [List.map_append, hold.parts, List.range_succ]
          rfl
        · rw [List.map_append, hold.messages]
          rfl
        · refine List.nodup_append.mpr ⟨hold.nodup, List.nodup_singleton _, ?_⟩
          rintro a ha b hb rfl
          exact hm (List.mem_singleton.mp hb ▸ ha)
      · rw [receipts_cons]
        swap
        · rintro _ _ ⟨he, -⟩
          cases he
          exact hid rfl
        simp only [Table.get_put, if_neg hid]
        exact ⟨hsome, hnone⟩
    · rw [receipts_cons (hno id)]
      refine ⟨fun row hrow => ?_, fun hno' => ?_⟩
      · cases hget : s.outbox.get id with
        | none =>
          have hun := new_of_changes hc hrow hget
          have hvalid := allValid_of_changes hc hv id row hrow
          rw [hnone hget]
          refine ⟨by rw [hun.next]; rfl, (hun.messageIds hvalid).symm, ?_⟩
          rw [hun.messageIds hvalid]
          exact List.nodup_nil
        | some old =>
          obtain ⟨row', hrow', hidle⟩ := row_of_changes hc hget
          rw [hrow] at hrow'
          obtain rfl := Option.some.inj hrow'
          have hold := hsome old hget
          exact ⟨by rw [hidle.next]; exact hold.parts, by rw [hidle.messages]; exact hold.messages,
            by rw [hidle.messages]; exact hold.nodup⟩
      · cases hget : s.outbox.get id with
        | none => exact hnone hget
        | some old =>
          obtain ⟨row', hrow', -⟩ := row_of_changes hc hget
          rw [hno'] at hrow'
          cases hrow'

/-- Whatever stood for a key is settled or still stands for it. -/
structure Owned (allotted : String → String → Prop) (s : Store) : Prop where
  held : ∀ key notice, s.notices.get key = some notice → allotted key notice.deliveryId
  settled : ∀ key id, allotted key id → ∃ row, s.outbox.get id = some row ∧
    (row.Settled ∨ ∃ notice, s.notices.get key = some notice ∧ notice.deliveryId = id ∧
      notice.active = true)

namespace Owned

variable {allotted : String → String → Prop}

/-- Rows that only settle keep what they stand for. -/
theorem of_idle (ho : Owned allotted s) (hn : s'.notices = s.notices)
    (hrow : ∀ id row, s.outbox.get id = some row →
      ∃ row', s'.outbox.get id = some row' ∧ Later row row') : Owned allotted s' where
  held key notice hget := ho.held key notice (hn ▸ hget)
  settled key id ha := by
    obtain ⟨row, hget, hor⟩ := ho.settled key id ha
    obtain ⟨row', hget', hl⟩ := hrow id row hget
    rw [hn]
    exact ⟨row', hget', hor.imp_left hl.settled⟩

/-- A key whose delivery is settled may lose it. -/
theorem settled_of_old (ho : Owned allotted s) {key id : String} (ha : allotted key id)
    (hold : ∀ old, s.notices.get key = some old → ∀ r, s.outbox.get old.deliveryId = some r →
      r.Settled) : ∃ row, s.outbox.get id = some row ∧ row.Settled := by
  obtain ⟨row, hget, hor⟩ := ho.settled key id ha
  refine ⟨row, hget, ?_⟩
  rcases hor with hset | ⟨notice, hnotice, rfl, -⟩
  · exact hset
  · exact hold notice hnotice row hget

theorem change (ho : Owned allotted s) (hc : Change s s') :
    ∃ allotted', (∀ key id, allotted key id → allotted' key id) ∧ Owned allotted' s' := by
  have hrow : ∀ id row, s.outbox.get id = some row →
      ∃ row', s'.outbox.get id = some row' ∧ Later row row' := by
    intro id row hget
    obtain ⟨row', hget', hidle⟩ := hc.exists_idle hget
    exact ⟨row', hget', hidle.toLater⟩
  cases hc with
  | unknown | recovered | givenUp | dropped | added =>
    exact ⟨allotted, fun _ _ ha => ha, ho.of_idle rfl hrow⟩
  | @allotted row key hnone hv hn hold =>
    refine ⟨fun k i => allotted k i ∨ k = key ∧ i = row.id, fun _ _ ha => Or.inl ha, ?_, ?_⟩
    · intro k notice hget
      simp only [Table.get_put] at hget
      split_ifs at hget with hk
      · exact Or.inr ⟨hk, (Option.some.inj hget) ▸ rfl⟩
      · exact Or.inl (ho.held k notice hget)
    · rintro k i (ha | ⟨rfl, rfl⟩)
      · by_cases hk : k = key
        · subst hk
          obtain ⟨r, hget, hset⟩ := ho.settled_of_old ha hold
          obtain ⟨r', hget', hl⟩ := hrow i r hget
          exact ⟨r', hget', Or.inl (hl.settled hset)⟩
        · obtain ⟨r, hget, hor⟩ := ho.settled k i ha
          obtain ⟨r', hget', hl⟩ := hrow i r hget
          refine ⟨r', hget', ?_⟩
          simp only [Table.get_put, if_neg hk]
          exact hor.imp_left hl.settled
      · exact ⟨row, Table.get_put_self, Or.inr ⟨_, Table.get_put_self, rfl, rfl⟩⟩
  | @closed key hold =>
    refine ⟨allotted, fun _ _ ha => ha, ?_, ?_⟩
    · intro k notice hget
      rw [Store.get_deactivate, Option.map_eq_some_iff] at hget
      obtain ⟨n, hn, rfl⟩ := hget
      have hheld := ho.held k n hn
      split_ifs <;> exact hheld
    · intro k i ha
      by_cases hk : k = key
      · subst hk
        obtain ⟨r, hget, hset⟩ := ho.settled_of_old ha hold
        exact ⟨r, hget, Or.inl hset⟩
      · obtain ⟨r, hget, hor⟩ := ho.settled k i ha
        refine ⟨r, hget, hor.imp_right ?_⟩
        rintro ⟨n, hn, hid, hactive⟩
        have hne : n.sourceId ≠ key := by
          rw [(Table.get_eq_some.mp hn).2]
          exact hk
        exact ⟨n, by rw [Store.get_deactivate, hn, Option.map_some, if_neg hne], hid, hactive⟩

theorem changes (ho : Owned allotted s) (hc : ReflTransGen Change s s') :
    ∃ allotted', (∀ key id, allotted key id → allotted' key id) ∧ Owned allotted' s' := by
  induction hc with
  | refl => exact ⟨allotted, fun _ _ ha => ha, ho⟩
  | tail _ hc ih =>
    obtain ⟨allotted1, hsub, ho1⟩ := ih
    obtain ⟨allotted2, hsub', ho2⟩ := ho1.change hc
    exact ⟨allotted2, fun k i ha => hsub' k i (hsub k i ha), ho2⟩

end Owned

theorem owned_of_run (hr : outbox.Run h s) : Owned (Allotted h) s := by
  induction hr with
  | start hs =>
    rw [hs]
    exact ⟨fun _ _ h => (nomatch h), fun _ _ ⟨_, h, _⟩ => (nomatch h)⟩
  | @snoc h s s' op out hr hs ih =>
    have howned : ∃ allotted', (∀ key id, Allotted h key id → allotted' key id) ∧
        Owned allotted' s' := by
      rcases step_cases hs with ⟨_, _, _, -, -, -, -, -, -, -, -, heq⟩ |
        ⟨_, _, _, _, _, -, -, -, -, -, -, -, -, -, heq⟩ | ⟨hc, -, -⟩
      · exact ⟨_, fun _ _ ha => ha, ih.of_idle (by rw [heq]) fun _ _ hget => exists_later hs hget⟩
      · exact ⟨_, fun _ _ ha => ha, ih.of_idle (by rw [heq]) fun _ _ hget => exists_later hs hget⟩
      · exact ih.changes hc
    obtain ⟨allotted', hsub', ho⟩ := howned
    refine ⟨fun key notice hget => ⟨_, List.mem_cons_self, notice, hget, rfl⟩, ?_⟩
    rintro key id ⟨t, ht, notice, hget, rfl⟩
    rcases List.mem_cons.mp ht with rfl | ht
    · exact ho.settled key _ (ho.held key notice hget)
    · exact ho.settled key _ (hsub' key _ ⟨t, ht, notice, hget, rfl⟩)

/-- After an observation without the key nothing stands for it. -/
theorem settled_of_observedWithout {older : List Call} {t : Call}
    (hr : outbox.Run older t.before) (hs : outbox.step t.before t.event t.after t.output)
    (ho : ObservedWithout key t) (ha : Allotted older key id) :
    ∃ row, t.after.outbox.get id = some row ∧ row.Settled := by
  obtain ⟨s, op, s', out⟩ := t
  obtain ⟨notices, destination, now, fresh, reply, rfl, rfl, hkey⟩ := ho
  obtain ⟨row, hget, hor⟩ := (owned_of_run (hr.snoc hs)).settled key id ha.cons
  refine ⟨row, hget, ?_⟩
  rcases hor with hset | ⟨notice, hnotice, -, hactive⟩
  · exact hset
  · obtain ⟨hfresh, hcall⟩ := hs
    unfold Store.call at hcall
    split at hcall
    · rename_i s1 reply1 hexec
      obtain ⟨rfl, -⟩ := Prod.mk.inj hcall
      rw [Store.exec, map_eq_ok] at hexec
      obtain ⟨⟨s2, rows⟩, hobserve, he⟩ := hexec
      cases he
      rw [(observe_eq_ok hfresh hobserve).2 key hkey notice hnotice] at hactive
      cases hactive
    · cases (Prod.mk.inj hcall).2

/-- Every stored row is valid and keeps its identity; each part is claimed once, in order, each
after the receipt of the one before, and the message ids are the receipts; a row given up is
neither claimed nor confirmed again; and a notice key has one unsettled delivery at most, none
once an observation left it out. -/
theorem outbox_exactly_once (hr : outbox.Run h s) :
    (∀ id row, s.outbox.get id = some row → row.Valid) ∧
    (∀ newer t older, h = newer ++ t :: older → ∀ id row, t.after.outbox.get id = some row →
      ∃ row', s.outbox.get id = some row' ∧ row'.id = row.id ∧
        row'.destination = row.destination ∧ row'.notification = row.notification ∧
        row'.parts = row.parts) ∧
    (∀ id part, h.Pairwise fun later earlier => Claimed id part earlier → ¬ Claimed id part later) ∧
    (∀ newer t older id part, h = newer ++ t :: older → Claimed id (part + 1) t →
      ∃ t' ∈ older, ∃ messageId, Confirmed id part messageId t') ∧
    (∀ id row, s.outbox.get id = some row →
      (receipts id h).map Prod.fst = List.range row.nextPart ∧
      (receipts id h).map Prod.snd = row.messageIds ∧ row.messageIds.Nodup ∧
      row.messageIds.length = row.nextPart) ∧
    (∀ id part messageId, h.Pairwise fun later earlier => GivenUp id earlier.after →
      ¬ (Claimed id part later ∨ Confirmed id part messageId later)) ∧
    (∀ key id id' row row', Allotted h key id → Allotted h key id' →
      s.outbox.get id = some row → s.outbox.get id' = some row' →
      ¬ row.Settled → ¬ row'.Settled → id = id') ∧
    (∀ newer t older key id row, h = newer ++ t :: older → ObservedWithout key t →
      Allotted older key id → s.outbox.get id = some row → row.Settled) := by
  refine ⟨allValid_of_reachable hr.reachable, ?_, fun id part => ?_, ?_, fun id row hget => ?_,
    fun id part messageId => ?_, ?_, ?_⟩
  · rintro newer t older rfl id row hget
    obtain ⟨row', hget', hl⟩ := hr.since
      (D := fun s => ∃ row', s.outbox.get id = some row' ∧ Later row row') (by
        rintro s e s' o - hs ⟨row1, hget1, hl⟩
        obtain ⟨row2, hget2, hl'⟩ := exists_later hs hget1
        exact ⟨row2, hget2, hl.trans hl'⟩) ⟨row, hget, .refl⟩
    exact ⟨row', hget', hl.id, hl.destination, hl.notification, hl.parts⟩
  · exact hr.at_most_once (D := Reached id part) (fun _ _ _ _ _ hs hc => reached_of_claimed hs hc)
      (fun _ _ _ _ _ hs hD => hD.step hs) fun _ _ _ _ _ hs hD => hD.not_claimed hs
  · rintro newer ⟨s1, op, s1', out⟩ older id part rfl ⟨rfl, rfl⟩
    obtain ⟨holder, hs⟩ := hr.split
    rcases step_cases hs with ⟨_, _, row, he, -, hget, hn, -⟩ | ⟨_, _, _, _, _, he, -⟩ |
      ⟨-, hno, -⟩
    · cases he
      have hparts := ((receipted_of_run holder id).1 row hget).parts
      have hmem : part ∈ (receipts id older).map Prod.fst := by
        rw [hparts, hn]
        exact List.mem_range.mpr (Nat.lt_succ_self part)
      obtain ⟨⟨_, m⟩, hm, rfl⟩ := List.mem_map.mp hmem
      obtain ⟨t', ht', hc⟩ := exists_confirmed hm
      exact ⟨t', ht', m, hc⟩
    · cases he
    · exact absurd ⟨rfl, rfl⟩ (hno id (part + 1))
  · obtain ⟨hparts, hmessages, hnodup⟩ := (receipted_of_run hr id).1 row hget
    exact ⟨hparts, hmessages, hnodup, (allValid_of_reachable hr.reachable id row hget).messages⟩
  · exact hr.never_after (E := fun t => GivenUp id t.after) (D := GivenUp id)
      (fun _ _ _ _ _ _ hg => hg) (fun _ _ _ _ _ hs hD => hD.step hs)
      fun _ _ _ _ _ hs hD => hD.refused hs
  · intro key id id' row row' ha ha' hget hget' hopen hopen'
    have ho := owned_of_run hr
    have hcurrent : ∀ {i r}, Allotted h key i → s.outbox.get i = some r → ¬ r.Settled →
        ∃ notice, s.notices.get key = some notice ∧ notice.deliveryId = i := by
      intro i r hi hr' hno
      obtain ⟨r1, hr1, hor⟩ := ho.settled key i hi
      rw [hr'] at hr1
      obtain ⟨notice, hnotice, hid, -⟩ := hor.resolve_left (Option.some.inj hr1 ▸ hno)
      exact ⟨notice, hnotice, hid⟩
    obtain ⟨notice, hnotice, rfl⟩ := hcurrent ha hget hopen
    obtain ⟨notice', hnotice', rfl⟩ := hcurrent ha' hget' hopen'
    rw [hnotice] at hnotice'
    rw [Option.some.inj hnotice']
  · rintro newer t older key id row rfl hw ha hget
    obtain ⟨holder, hs⟩ := hr.split
    obtain ⟨row', hget', hset⟩ := hr.since
      (D := fun s => ∃ row, s.outbox.get id = some row ∧ row.Settled) (by
        rintro s e s' o - hs ⟨row1, hget1, hset⟩
        obtain ⟨row2, hget2, hl⟩ := exists_later hs hget1
        exact ⟨row2, hget2, hl.settled hset⟩) (settled_of_observedWithout holder hs hw ha)
    rw [hget] at hget'
    exact Option.some.inj hget' ▸ hset

/-- The first part is sent, the daemon goes away over the second and comes back, and the operator
gives the second up; then the notice is no longer seen. -/
def lostPart (note : Notification) : List Operation :=
  [.observe [⟨none, "k", none, none, note⟩] ⟨1, 42, none⟩ 0 ["d"], .claim "d" 0,
    .confirm "d" 0 7, .claim "d" 1, .recover, .claim "d" 1, .abandonUnknown "d" "lost",
    .confirm "d" 1 8, .observe [] ⟨1, 42, none⟩ 1 []]

def sent (note : Notification) : List Call × Store :=
  Machine.play Store.next [] .empty (lostPart note)

/-- What the claims and receipts were answered, newest first. -/
def answers (h : List Call) : List Bool :=
  h.filterMap fun t => match t.output with
    | .ok (.bool done) => some done
    | _ => none

theorem sent_lostPart {note : Notification} (hlt : 1 < (render note).length) :
    answers (sent note).1 = [false, true, false, true, true, true] ∧
      ((sent note).2.outbox.get "d").map (fun row => (row.messageIds, row.abandoned)) =
        some ([7], true) ∧
      receipts "d" (sent note).1 = [(0, 7)] := by
  have hreason : Pipeline.isBlank "lost" = false ∧ ¬4096 < "lost".utf8ByteSize := by decide
  unfold sent lostPart
  generalize hparts : render note = parts at hlt
  have hne : parts ≠ [] := List.ne_nil_of_length_pos (by omega)
  have hpos : 0 < parts.length ∧ 1 ≤ parts.length := by omega
  have hmore : ¬0 = parts.length ∧ ¬1 = parts.length := by omega
  simp [Machine.play, Store.next, Operation.Fresh, Store.call, Store.exec, Store.observeTelegram,
    observeNotice, closeNotice, Store.loadOld, Store.load, Store.insert, TelegramNotice.row,
    TelegramDelivery.new, TelegramDelivery.valid_iff, hparts, hne, hlt, hpos, hmore, hreason,
    Store.empty, Table.empty, Store.giveUp, Store.claimTelegramPart, Store.save,
    TelegramDelivery.complete, Store.confirmTelegramPart, Store.recoverTelegramAttempts,
    Store.abandonUnknownTelegram, Store.deactivate, Table.update, Table.get, Table.put, upsert,
    bind, Except.bind, pure, Except.pure, Except.map, answers, receipts]

/-- The first part is sent once, the second claimed once and given up after a restart. -/
theorem outbox_exactly_once_sent :
    (1 < (render long).length ∧ answers (sent long).1 = [false, true, false, true, true, true] ∧
      ((sent long).2.outbox.get "d").map (fun row => (row.messageIds, row.abandoned)) =
        some ([7], true) ∧
      receipts "d" (sent long).1 = [(0, 7)]) ∧
      (∀ part, (sent long).1.Pairwise fun later earlier =>
        Claimed "d" part earlier → ¬ Claimed "d" part later) ∧
      ∀ part messageId, (sent long).1.Pairwise fun later earlier => GivenUp "d" earlier.after →
        ¬ (Claimed "d" part later ∨ Confirmed "d" part messageId later) := by
  have hr : outbox.Run (sent long).1 (sent long).2 :=
    .play (fun _ _ _ _ => step_of_next) (.start rfl)
  obtain ⟨-, -, hclaimed, -, -, hgiven, -⟩ := outbox_exactly_once hr
  exact ⟨⟨one_lt_long, sent_lostPart one_lt_long⟩, hclaimed "d", hgiven "d"⟩

end Agend.Telegram
