import Agend.Library.Decimal
import Agend.Library.Json

/-! The history of a codex thread as events with cursors. -/
namespace Agend.Codex

open Library

inductive DriverEventKind where
  | busyChanged (busy : Bool)
  | messageConfirmed (messageId : String)
  | usageLimit (resetAtUnixMs : Option Nat)
  | turnCompleted (summary : Option String)
  deriving DecidableEq

structure DriverEvent where
  cursor : String
  kind : DriverEventKind
  deriving DecidableEq

/-- Which user messages are ours: the message id at a turn and an item. -/
abbrev Matched := List ((Nat × Nat) × String)

def turnId (turn : Json) : String := (turn.index "id").asStr.getD ""

def turnItems (turn : Json) : List Json := (turn.index "items").asArr.getD []

def turnStatus (turn : Json) : Option String := (turn.index "status").asStr

def ended (turn : Json) : Bool :=
  !(turnStatus turn = none || turnStatus turn = some "inProgress")

/-- The slots of a turn that have an event. -/
def slots (ours : Matched) (t : Nat) (turn : Json) : List (Nat × DriverEventKind) :=
  let items := (turnItems turn).length
  let confirmed := (List.range items).filterMap fun k =>
    (ours.find? (·.1 = (t, k))).map fun found => (k + 1, .messageConfirmed found.2)
  let ends := if ended turn then
    [(items + 1, .turnCompleted (turnStatus turn)), (items + 2, .busyChanged false)] else []
  (0, .busyChanged true) :: (confirmed ++ ends)

def cursorAt (id : String) (slot : Nat) : String := s!"{id}:{slot}"

def expand (turns : List Json) (ours : Matched) : List DriverEvent :=
  turns.zipIdx.flatMap fun (turn, t) =>
    (slots ours t turn).map fun (slot, kind) => ⟨cursorAt (turnId turn) slot, kind⟩

/-- The text before and after the last `c`. -/
def rsplitOnce (c : Char) (s : String) : Option (String × String) :=
  let back := s.toList.reverse
  match back.dropWhile (· ≠ c) with
  | [] => none
  | _ :: front =>
    some (String.ofList front.reverse, String.ofList (back.takeWhile (· ≠ c)).reverse)

/-- The turn and the slot of a cursor; none when its turn is not there. -/
def position (turns : List Json) (cursor : String) : Option (Nat × Nat) := do
  let (turn, slot) ← rsplitOnce ':' cursor
  let slot ← parseUsize slot
  let t ← turns.findIdx? fun x => (x.index "id").asStr = some turn
  return (t, slot)

def later (a b : Nat × Nat) : Bool := b.1 < a.1 || (a.1 = b.1 && b.2 < a.2)

/-- The events after a cursor; all of them without one or when its turn is gone. -/
def after (turns : List Json) (events : List DriverEvent) (cursor : Option String) :
    List DriverEvent :=
  match cursor.bind (position turns) with
  | none => events
  | some start => events.filter fun e => (position turns e.cursor).any (later · start)

/-- Turns with distinct string ids; a list of items is never longer than memory. -/
structure Addressed (turns : List Json) : Prop where
  named : ∀ turn ∈ turns, (turn.index "id").asStr ≠ none
  distinct : (turns.map turnId).Nodup
  fits : ∀ turn ∈ turns, (turnItems turn).length < 2 ^ 63

/-- What a turn may become: items are added and it ends, once. -/
structure TurnGrows (turn turn' : Json) : Prop where
  id : turnId turn' = turnId turn
  items : turnItems turn <+: turnItems turn'
  ended : ended turn = true →
    turnItems turn' = turnItems turn ∧ turnStatus turn' = turnStatus turn

/-- What a history and its matches may become. -/
structure Extends (turns turns' : List Json) (ours ours' : Matched) : Prop where
  grows : ∀ (t : Nat) turn, turns[t]? = some turn →
    ∃ turn', turns'[t]? = some turn' ∧ TurnGrows turn turn'
  found : ∀ place found, ours.find? (·.1 = place) = some found →
    ours'.find? (·.1 = place) = some found

/-- Every event with its position. -/
def indexed (turns : List Json) (ours : Matched) : List ((Nat × Nat) × DriverEvent) :=
  turns.zipIdx.flatMap fun (turn, t) =>
    (slots ours t turn).map fun (slot, kind) => ((t, slot), ⟨cursorAt (turnId turn) slot, kind⟩)

theorem expand_eq (turns : List Json) (ours : Matched) :
    expand turns ours = (indexed turns ours).map Prod.snd := by
  simp [expand, indexed, List.map_flatMap, Function.comp_def]

theorem rsplitOnce_append {c : Char} (front : String) {back : String} (h : c ∉ back.toList) :
    rsplitOnce c (front ++ String.singleton c ++ back) = some (front, back) := by
  have hkeep : ∀ x ∈ back.toList.reverse, decide (x ≠ c) = true := by
    intro x hx
    apply decide_eq_true
    intro heq
    exact h (heq ▸ List.mem_reverse.mp hx)
  have hlist : (front ++ String.singleton c ++ back).toList.reverse =
      back.toList.reverse ++ c :: front.toList.reverse := by
    simp
  rw [rsplitOnce, hlist, List.dropWhile_append_of_pos hkeep, List.takeWhile_append_of_pos hkeep]
  simp

theorem cursorAt_eq (id : String) (slot : Nat) :
    cursorAt id slot = id ++ String.singleton ':' ++ slot.repr := rfl

theorem rsplitOnce_cursorAt (id : String) (slot : Nat) :
    rsplitOnce ':' (cursorAt id slot) = some (id, slot.repr) := by
  rw [cursorAt_eq]
  exact rsplitOnce_append id (not_mem_repr (by decide))

section

variable {turns turns' : List Json} {ours ours' : Matched} {turn : Json} {t slot : Nat}

theorem asStr_id (haddr : Addressed turns) (hmem : turn ∈ turns) :
    (turn.index "id").asStr = some (turnId turn) := by
  have hne := haddr.named turn hmem
  cases h : (turn.index "id").asStr with
  | none => exact absurd h hne
  | some id => simp [turnId, h]

theorem findIdx?_turn (haddr : Addressed turns) (hturn : turns[t]? = some turn) :
    turns.findIdx? (fun x => (x.index "id").asStr = some (turnId turn)) = some t := by
  have hlt : t < turns.length := (List.getElem?_eq_some_iff.mp hturn).1
  have hget : turns[t] = turn := (List.getElem?_eq_some_iff.mp hturn).2
  apply List.findIdx?_eq_some_iff_getElem.mpr
  refine ⟨hlt, ?_, ?_⟩
  · rw [hget]
    exact decide_eq_true (asStr_id haddr (List.mem_of_getElem? hturn))
  · intro j hj
    have hjlt : j < turns.length := by omega
    have hid : turnId turns[j] ≠ turnId turn := by
      intro heq
      have hmap : (turns.map turnId)[j]? = (turns.map turnId)[t]? := by
        simp [hlt, hjlt, hget, heq]
      have hjt := (List.getElem?_inj (by simpa using hjlt) haddr.distinct).mp hmap
      omega
    rw [asStr_id haddr (List.getElem_mem hjlt)]
    simpa using hid

/-- A cursor that was given out leads back to its turn and slot. -/
theorem position_cursorAt (haddr : Addressed turns) (hturn : turns[t]? = some turn)
    (hslot : slot < 2 ^ 64) : position turns (cursorAt (turnId turn) slot) = some (t, slot) := by
  simp [position, rsplitOnce_cursorAt, parseUsize_repr hslot, findIdx?_turn haddr hturn]

theorem slot_le {kind : DriverEventKind} (h : (slot, kind) ∈ slots ours t turn) :
    slot ≤ (turnItems turn).length + 2 := by
  simp only [slots, List.mem_cons, List.mem_append, List.mem_filterMap, List.mem_range] at h
  rcases h with hstart | ⟨k, hk, hfound⟩ | hends
  · have hzero := congrArg Prod.fst hstart
    simp only at hzero
    omega
  · obtain ⟨found, _, heq⟩ := Option.map_eq_some_iff.mp hfound
    have hslot := congrArg Prod.fst heq
    simp only at hslot
    omega
  · by_cases hended : ended turn = true
    · simp only [hended, if_true, List.mem_cons, List.not_mem_nil, or_false, Prod.mk.injEq] at hends
      omega
    · simp [hended] at hends

theorem mem_indexed {entry : (Nat × Nat) × DriverEvent} (h : entry ∈ indexed turns ours) :
    ∃ turn slot kind, turns[entry.1.1]? = some turn ∧ entry.1.2 = slot ∧
      (slot, kind) ∈ slots ours entry.1.1 turn ∧ entry.2 = ⟨cursorAt (turnId turn) slot, kind⟩ := by
  rw [indexed, List.mem_flatMap] at h
  obtain ⟨⟨turn, t⟩, hturn, hentry⟩ := h
  obtain ⟨⟨slot, kind⟩, hslot, heq⟩ := List.mem_map.mp hentry
  have hget : turns[t]? = some turn := by simpa using List.mem_zipIdx_iff_getElem?.mp hturn
  rw [← heq]
  exact ⟨turn, slot, kind, hget, rfl, hslot, rfl⟩

theorem position_indexed (haddr : Addressed turns) {entry : (Nat × Nat) × DriverEvent}
    (h : entry ∈ indexed turns ours) : position turns entry.2.cursor = some entry.1 := by
  obtain ⟨turn, slot, kind, hturn, hslot, hmem, hevent⟩ := mem_indexed h
  have hfits := haddr.fits turn (List.mem_of_getElem? hturn)
  have hle := slot_le hmem
  rw [hevent, position_cursorAt haddr hturn (by omega), ← hslot]

/-- The slots of a turn go up. -/
theorem slots_pairwise (ours : Matched) (t : Nat) (turn : Json) :
    (slots ours t turn).Pairwise fun a b => a.1 < b.1 := by
  have hconfirmed : ∀ a ∈ (List.range (turnItems turn).length).filterMap (fun k =>
      (ours.find? (·.1 = (t, k))).map fun found =>
        (k + 1, DriverEventKind.messageConfirmed found.2)),
      0 < a.1 ∧ a.1 ≤ (turnItems turn).length := by
    intro a ha
    obtain ⟨k, hk, hfound⟩ := List.mem_filterMap.mp ha
    obtain ⟨found, _, heq⟩ := Option.map_eq_some_iff.mp hfound
    rw [List.mem_range] at hk
    rw [← heq]
    simp only
    omega
  have hends : ∀ a ∈ (if ended turn then
      [((turnItems turn).length + 1, DriverEventKind.turnCompleted (turnStatus turn)),
        ((turnItems turn).length + 2, .busyChanged false)] else []),
      (turnItems turn).length < a.1 := by
    intro a ha
    by_cases hended : ended turn = true
    · simp only [hended, if_true, List.mem_cons, List.not_mem_nil, or_false] at ha
      rcases ha with ha | ha <;> simp [ha]
    · simp [hended] at ha
  rw [slots]
  apply List.Pairwise.cons
  · intro a ha
    cases List.mem_append.mp ha with
    | inl ha => exact (hconfirmed a ha).1
    | inr ha => exact Nat.zero_lt_of_lt (hends a ha)
  · apply List.pairwise_append.mpr
    refine ⟨?_, ?_, ?_⟩
    · apply List.pairwise_lt_range.filterMap
      intro k k' hlt a ha b hb
      obtain ⟨_, _, hka⟩ := Option.map_eq_some_iff.mp ha
      obtain ⟨_, _, hkb⟩ := Option.map_eq_some_iff.mp hb
      rw [← hka, ← hkb]
      simp only
      omega
    · by_cases hended : ended turn = true <;> simp [hended]
    · intro a ha b hb
      have hle := (hconfirmed a ha).2
      have hlt := hends b hb
      omega

theorem indexed_pairwise (turns : List Json) (ours : Matched) :
    (indexed turns ours).Pairwise fun a b => later b.1 a.1 = true := by
  rw [indexed, List.pairwise_flatMap]
  constructor
  · intro a _
    rw [List.pairwise_map]
    apply (slots_pairwise ours a.2 a.1).imp
    intro x y hlt
    simpa [later] using hlt
  · have hzip : turns.zipIdx.Pairwise fun a b => a.2 < b.2 := by
      have hlt : (turns.zipIdx.map Prod.snd).Pairwise (· < ·) := by
        rw [List.zipIdx_map_snd]
        exact List.pairwise_lt_range'
      exact List.pairwise_map.mp hlt
    apply hzip.imp
    intro a b hlt x hx y hy
    obtain ⟨_, _, hxa⟩ := List.mem_map.mp hx
    obtain ⟨_, _, hyb⟩ := List.mem_map.mp hy
    rw [← hxa, ← hyb]
    simp [later, hlt]

/-- What comes after a cursor, by position. -/
theorem after_eq (haddr : Addressed turns) (ours : Matched) {cursor : String} {start : Nat × Nat}
    (hstart : position turns cursor = some start) :
    after turns (expand turns ours) (some cursor) =
      ((indexed turns ours).filter fun entry => later entry.1 start).map Prod.snd := by
  rw [after, Option.bind_some, hstart, expand_eq]
  simp only [List.filter_map]
  congr 1
  apply List.filter_congr
  intro entry hentry
  simp [position_indexed haddr hentry]

theorem not_later_self (a : Nat × Nat) : later a a = false := by
  simp [later]

theorem later_asymm {a b : Nat × Nat} (h : later a b = true) : later b a = false := by
  simp only [later, Bool.or_eq_true, Bool.and_eq_true, decide_eq_true_eq, Bool.or_eq_false_iff,
    Bool.and_eq_false_iff, decide_eq_false_iff_not] at h ⊢
  omega

/-- In a list whose positions go up, what is later than an entry is what stands behind it. -/
theorem filter_later {α : Type*} {before rest : List ((Nat × Nat) × α)} {entry : (Nat × Nat) × α}
    (h : (before ++ entry :: rest).Pairwise fun a b => later b.1 a.1 = true) :
    (before ++ entry :: rest).filter (fun x => later x.1 entry.1) = rest := by
  obtain ⟨_, hrest, hcross⟩ := List.pairwise_append.mp h
  have hbefore : before.filter (fun x => later x.1 entry.1) = [] := by
    apply List.filter_eq_nil_iff.mpr
    intro x hx
    have hlater := hcross x hx entry List.mem_cons_self
    simp [later_asymm hlater]
  have hbehind : rest.filter (fun x => later x.1 entry.1) = rest := by
    apply List.filter_eq_self.mpr
    intro x hx
    exact List.rel_of_pairwise_cons hrest hx
  rw [List.filter_append, hbefore, List.filter_cons_of_neg (by simp [not_later_self]), hbehind,
    List.nil_append]

theorem filterMap_sublist {α β : Type*} {f f' : α → Option β} {l l' : List α}
    (hl : l.Sublist l') (hf : ∀ a b, f a = some b → f' a = some b) :
    (l.filterMap f).Sublist (l'.filterMap f') := by
  induction hl with
  | slnil => exact List.Sublist.refl _
  | cons a _ ih =>
    cases h : f' a with
    | none => rwa [List.filterMap_cons_none h]
    | some b => rw [List.filterMap_cons_some h]; exact ih.cons b
  | cons_cons a _ ih =>
    cases h : f a with
    | none =>
      rw [List.filterMap_cons_none h]
      cases h' : f' a with
      | none => rwa [List.filterMap_cons_none h']
      | some b => rw [List.filterMap_cons_some h']; exact ih.cons b
    | some b =>
      rw [List.filterMap_cons_some h, List.filterMap_cons_some (hf a b h)]
      exact ih.cons_cons b

/-- A turn that grows keeps its events, and new ones get slots of their own. -/
theorem slots_sublist (hgrows : TurnGrows turn turn')
    (hfound : ∀ place found, ours.find? (·.1 = place) = some found →
      ours'.find? (·.1 = place) = some found) (t : Nat) :
    (slots ours t turn).Sublist (slots ours' t turn') := by
  have hle : (turnItems turn).length ≤ (turnItems turn').length := hgrows.items.length_le
  have hrange : (List.range (turnItems turn).length).Sublist
      (List.range (turnItems turn').length) := List.range_sublist.mpr hle
  rw [slots, slots]
  apply List.Sublist.cons_cons
  apply List.Sublist.append
  · apply filterMap_sublist hrange
    intro k entry h
    obtain ⟨found, hk, heq⟩ := Option.map_eq_some_iff.mp h
    rw [hfound _ _ hk, Option.map_some, heq]
  · by_cases hended : ended turn = true
    · obtain ⟨hitems, hstatus⟩ := hgrows.ended hended
      have hended' : ended turn' = true := by
        rw [ended, hstatus]
        exact hended
      rw [if_pos hended, if_pos hended', hitems, hstatus]
    · rw [if_neg hended]
      exact List.nil_sublist _

theorem indexed_sublist (h : Extends turns turns' ours ours') :
    (indexed turns ours).Sublist (indexed turns' ours') := by
  have key : ∀ (l l' : List Json) (n : Nat),
      (∀ (t : Nat) turn, l[t]? = some turn → ∃ turn', l'[t]? = some turn' ∧ TurnGrows turn turn') →
      ((l.zipIdx n).flatMap fun (turn, t) =>
        (slots ours t turn).map fun (slot, kind) => (((t, slot),
          ⟨cursorAt (turnId turn) slot, kind⟩) : (Nat × Nat) × DriverEvent)).Sublist
      ((l'.zipIdx n).flatMap fun (turn, t) =>
        (slots ours' t turn).map fun (slot, kind) =>
          ((t, slot), ⟨cursorAt (turnId turn) slot, kind⟩)) := by
    intro l
    induction l with
    | nil => exact fun l' n _ => List.nil_sublist _
    | cons turn l ih =>
      intro l' n hgrows
      obtain ⟨turn', hturn', hgrow⟩ := hgrows 0 turn rfl
      cases l' with
      | nil => simp at hturn'
      | cons first l' =>
        have hfirst : first = turn' := by simpa using hturn'
        rw [hfirst, List.zipIdx_cons, List.zipIdx_cons, List.flatMap_cons, List.flatMap_cons]
        apply List.Sublist.append
        · simp only [hgrow.id]
          exact (slots_sublist hgrow h.found n).map _
        · exact ih l' (n + 1) fun t turn ht => hgrows (t + 1) turn ht
  exact key turns turns' 0 h.grows

/-- A turn keeps its place in a history that goes on. -/
theorem getElem?_extends (h : Extends turns turns' ours ours') (hturn : turns[t]? = some turn) :
    ∃ turn', turns'[t]? = some turn' ∧ turnId turn' = turnId turn := by
  obtain ⟨turn', hturn', hgrows⟩ := h.grows t turn hturn
  exact ⟨turn', hturn', hgrows.id⟩

end

/-- What a consumer that remembers a cursor of `expand` can rely on. -/
structure SteadyResume (turns : List Json) (ours : Matched) : Prop where
  distinct : ((expand turns ours).map DriverEvent.cursor).Nodup
  increasing : (expand turns ours).Pairwise fun a b => ∃ p q, position turns a.cursor = some p ∧
    position turns b.cursor = some q ∧ later q p = true
  behind : ∀ before event rest, expand turns ours = before ++ event :: rest →
    after turns (expand turns ours) (some event.cursor) = rest

/-- The same once the history has gone on: the cursor is where it was and nothing behind it is
lost or changed. -/
structure Kept (turns turns' : List Json) (ours ours' : Matched) (cursor : String) : Prop where
  position : position turns' cursor = position turns cursor
  behind : (after turns (expand turns ours) (some cursor)).Sublist
    (after turns' (expand turns' ours') (some cursor))

theorem steady {turns : List Json} (haddr : Addressed turns) (ours : Matched) :
    SteadyResume turns ours := by
  have hpairwise := indexed_pairwise turns ours
  have hincreasing : (expand turns ours).Pairwise fun a b => ∃ p q,
      position turns a.cursor = some p ∧ position turns b.cursor = some q ∧ later q p = true := by
    rw [expand_eq, List.pairwise_map]
    apply hpairwise.imp_of_mem
    intro a b ha hb hlater
    exact ⟨a.1, b.1, position_indexed haddr ha, position_indexed haddr hb, hlater⟩
  refine ⟨?_, hincreasing, ?_⟩
  · rw [List.nodup_iff_pairwise_ne, List.pairwise_map]
    apply hincreasing.imp
    intro a b hab heq
    obtain ⟨p, q, hp, hq, hlater⟩ := hab
    rw [heq, hq, Option.some_inj] at hp
    rw [hp, not_later_self] at hlater
    exact Bool.noConfusion hlater
  · intro before event rest hsplit
    have hmap := expand_eq turns ours
    rw [hsplit] at hmap
    obtain ⟨before', behind, hindexed, hbefore, hbehind⟩ := List.map_eq_append_iff.mp hmap.symm
    obtain ⟨entry, rest', hcons, hevent, hrest⟩ := List.map_eq_cons_iff.mp hbehind
    rw [hcons] at hindexed
    have hentry : entry ∈ indexed turns ours := by
      rw [hindexed]
      exact List.mem_append_right _ List.mem_cons_self
    have hposition := position_indexed haddr hentry
    rw [← hevent, after_eq haddr ours hposition, hindexed, filter_later (hindexed ▸ hpairwise), hrest]

theorem kept_extends {turns turns' : List Json} {ours ours' : Matched} (haddr : Addressed turns)
    (haddr' : Addressed turns') (h : Extends turns turns' ours ours') {event : DriverEvent}
    (hevent : event ∈ expand turns ours) : Kept turns turns' ours ours' event.cursor := by
  rw [expand_eq] at hevent
  obtain ⟨entry, hentry, heq⟩ := List.mem_map.mp hevent
  obtain ⟨turn, slot, kind, hturn, hslot, hmem, hcursor⟩ := mem_indexed hentry
  obtain ⟨turn', hturn', hid⟩ := getElem?_extends h hturn
  have hfits := haddr.fits turn (List.mem_of_getElem? hturn)
  have hle := slot_le hmem
  have hold : position turns event.cursor = some entry.1 := by
    rw [← heq]
    exact position_indexed haddr hentry
  have hnew : position turns' event.cursor = some entry.1 := by
    rw [← heq, hcursor, ← hid, position_cursorAt haddr' hturn' (by omega), ← hslot]
  refine ⟨hnew.trans hold.symm, ?_⟩
  rw [after_eq haddr ours hold, after_eq haddr' ours' hnew]
  exact ((indexed_sublist h).filter _).map _

/-- Without its turn a cursor is no cursor. -/
theorem after_gone {turns : List Json} {id : String}
    (hgone : ∀ turn ∈ turns, (turn.index "id").asStr ≠ some id) (events : List DriverEvent)
    (slot : Nat) : after turns events (some (cursorAt id slot)) = events := by
  have hnone : turns.findIdx? (fun x => (x.index "id").asStr = some id) = none := by
    apply List.findIdx?_eq_none_iff.mpr
    intro turn hturn
    exact decide_eq_false (hgone turn hturn)
  have hposition : position turns (cursorAt id slot) = none := by
    rw [position, rsplitOnce_cursorAt]
    cases h : parseUsize slot.repr <;> simp [h, hnone]
  rw [after, Option.bind_some, hposition]

/-- Cursors are distinct and go up, `after` is what stands behind one, and when the history goes on
a cursor that was given out stays where it is and nothing behind it is lost; when its turn is gone
everything is read again. -/
theorem cursors_stable (turns : List Json) (ours : Matched) (haddr : Addressed turns) :
    SteadyResume turns ours ∧
      (∀ turns' ours', Addressed turns' → Extends turns turns' ours ours' →
        ∀ event ∈ expand turns ours, Kept turns turns' ours ours' event.cursor) ∧
      ∀ turns' id slot, (∀ turn ∈ turns', (turn.index "id").asStr ≠ some id) →
        ∀ events, after turns' events (some (cursorAt id slot)) = events := by
  refine ⟨steady haddr ours, ?_, ?_⟩
  · intro turns' ours' haddr' hextends event hevent
    exact kept_extends haddr haddr' hextends hevent
  · intro turns' id slot hgone events
    exact after_gone hgone events slot

/-- A turn with an id, a status and a number of items. -/
def turnOf (id status : String) (items : Nat) : Json :=
  .obj [("id", .str id), ("items", .arr (List.replicate items .null)), ("status", .str status)]

/-- A running turn with a colon in its id goes on, ends and has a message confirmed late. -/
theorem cursors_stable_resumed :
    let turns := [turnOf "t:1" "completed" 2, turnOf "t" "inProgress" 1]
    let turns' := [turnOf "t:1" "completed" 2, turnOf "t" "failed" 3, turnOf "t-3" "inProgress" 0]
    let ours := [((1, 0), "m-2")]
    let ours' := [((0, 0), "m-1"), ((1, 0), "m-2")]
    SteadyResume turns ours ∧ Kept turns turns' ours ours' "t:1:4" ∧
      (after turns (expand turns ours) (some "t:1:4")).map (·.cursor) = ["t:0", "t:1"] ∧
      (after turns' (expand turns' ours') (some "t:1:4")).map (·.cursor) =
        ["t:0", "t:1", "t:4", "t:5", "t-3:0"] := by
  intro turns turns' ours ours'
  have haddr : Addressed turns := ⟨by decide, by decide, by decide⟩
  have haddr' : Addressed turns' := ⟨by decide, by decide, by decide⟩
  have hextends : Extends turns turns' ours ours' := by
    constructor
    · intro t turn hturn
      match t with
      | 0 =>
        cases hturn
        exact ⟨_, rfl, ⟨rfl, List.prefix_rfl, fun _ => ⟨rfl, rfl⟩⟩⟩
      | 1 =>
        cases hturn
        exact ⟨turnOf "t" "failed" 3, rfl, ⟨rfl, by decide, by decide⟩⟩
      | _ + 2 => cases hturn
    · intro place found hfound
      have hplace : place = (1, 0) := by
        by_contra hne
        simp [ours, Ne.symm hne] at hfound
      rw [hplace] at hfound ⊢
      exact hfound
  have hstable := cursors_stable turns ours haddr
  refine ⟨hstable.1, ?_, by decide, by decide⟩
  exact hstable.2.1 turns' ours' haddr' hextends
    ⟨"t:1:4", .busyChanged false⟩ (by decide)

end Agend.Codex
