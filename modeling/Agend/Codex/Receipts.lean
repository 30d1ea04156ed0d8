import Agend.Library.FirstFit
import Agend.Runtime.Records

/-! Which user message of a codex thread is which message of ours. -/
namespace Agend.Codex

open Library
open Agend.Runtime

/-- The text an agent receives. -/
def render (sender : String) (taskId : Option String) (body : String) : String :=
  match taskId with
  | some task => s!"From: {sender}\nTask: {task}\n\n{body}"
  | none => s!"From: {sender}\n\n{body}"

/-- The text a row was sent as. -/
def textOf (row : Message) : String := render row.fromInstance row.taskId row.body

/-- One user message of the thread. -/
structure UserItem where
  turnId : String
  clientId : Option String
  text : String
  deriving DecidableEq

/-- The text and the turn of an item are those of a row; without a turn, of a row whose send was
attempted. -/
def evidence (item : UserItem) (row : Message) : Bool :=
  textOf row = item.text &&
    match row.turnId with
    | some turn => turn = item.turnId
    | none => row.state = .queued && row.attemptedAtUnixMs.isSome

def isUsable (row : Message) : Bool := row.state ≠ .failed

/-- The first row, not taken yet, that passes a check. -/
def firstRow (rows : List Message) (taken : List Nat) (check : Message → Bool) : Option Nat :=
  (List.range rows.length).find? fun i =>
    !taken.contains i && (rows[i]?).any fun row => isUsable row && check row

/-- The row that an item is given, by its client id or, where that is allowed, by its text. -/
def found (rows : List Message) (allowText : Bool) (taken : List Nat) (item : UserItem) :
    Option Nat :=
  let byClient := item.clientId.bind fun c => firstRow rows taken fun row => row.id = c
  byClient.or <|
    if !allowText || item.clientId.isSome then none else firstRow rows taken (evidence item)

/-- The positions of the rows that the items are given, one after the other. -/
def matchRows (items : List UserItem) (rows : List Message) (allowText : Bool) :
    List (Option Nat) :=
  firstFit (found rows allowText) [] items

def matchWith (items : List UserItem) (rows : List Message) (allowText : Bool) :
    List (Option String) :=
  (matchRows items rows allowText).map fun found => found.bind fun i => (rows[i]?).map (·.id)

/-- For each item the id of the row it is. -/
def matchItems (items : List UserItem) (rows : List Message) : List (Option String) :=
  matchWith items rows true

/-- Input-enabled instances require the daemon's own client id. -/
def matchIdentifiedItems (items : List UserItem) (rows : List Message) : List (Option String) :=
  matchWith items rows false

/-- The row that the text rule finds for an item among those that no item names. -/
def spare (items : List UserItem) (rows : List Message) (taken : List Nat) (item : UserItem) :
    Option Nat :=
  if item.clientId.isSome then none
  else firstRow rows taken fun row => evidence item row && items.all (·.clientId ≠ some row.id)

/-- The text rule alone, over the rows that no item names by its client id. -/
def spares (items : List UserItem) (rows : List Message) : List (Option Nat) :=
  firstFit (spare items rows) [] items

/-- The item at `i` is given a row. -/
def Gives (result : List (Option String)) (i : Nat) (row : Message) : Prop :=
  result[i]? = some (some row.id)

/-- What is promised of the rows that the items are given. -/
structure Attributed (allowText : Bool) (items : List UserItem) (rows : List Message)
    (result : List (Option String)) : Prop where
  length : result.length = items.length
  usable : ∀ (i : Nat) id, result[i]? = some (some id) → ∃ row ∈ rows, row.id = id ∧ row.state ≠ .failed
  once : ∀ i j row, Gives result i row → Gives result j row → i = j
  own : ∀ (i : Nat) item c id, items[i]? = some item → item.clientId = some c →
    result[i]? = some (some id) → id = c
  foreign : ∀ (i : Nat) item c, items[i]? = some item → item.clientId = some c →
    (∀ row ∈ rows, row.state ≠ .failed → row.id ≠ c) → result[i]? = some none
  identified : allowText = false → ∀ (i : Nat) item, items[i]? = some item → item.clientId = none →
    result[i]? = some none
  text : ∀ (i : Nat) item row, items[i]? = some item → item.clientId = none → row ∈ rows →
    Gives result i row → evidence item row = true
  first : allowText = true → ∀ (i : Nat) item (p : Nat) row, items[i]? = some item → item.clientId = none →
    rows[p]? = some row → row.state ≠ .failed → evidence item row = true →
    (∃ j < i, Gives result j row) ∨ ∃ q ≤ p, ∃ other, rows[q]? = some other ∧ Gives result i other
  order : ∀ (i j p q : Nat) item row row', i < j → items[i]? = some item → item.clientId = none →
    rows[p]? = some row → rows[q]? = some row' → Gives result i row → Gives result j row' →
    evidence item row' = true → p < q

/-- A row that is named goes to the first item that names it. -/
def Claimed (items : List UserItem) (rows : List Message) (result : List (Option String)) : Prop :=
  ∀ (i : Nat) item row, items[i]? = some item → row ∈ rows → row.state ≠ .failed →
    item.clientId = some row.id →
    (∀ j < i, ∀ before, items[j]? = some before → before.clientId ≠ some row.id) →
    Gives result i row

/-- Where an item without a client id has the text of a row that only later items name, the text
rule has an earlier row for it that no item names. -/
def Spared (items : List UserItem) (rows : List Message) : Prop :=
  ∀ (i : Nat) item (p : Nat) row, items[i]? = some item → item.clientId = none →
    rows[p]? = some row → row.state ≠ .failed → evidence item row = true →
    (∃ later ∈ items, later.clientId = some row.id) →
    (∀ j < i, ∀ before, items[j]? = some before → before.clientId ≠ some row.id) →
    ∃ q < p, (spares items rows)[i]? = some (some q)

section

variable {items : List UserItem} {rows : List Message} {allowText : Bool} {taken : List Nat}
  {item : UserItem} {check : Message → Bool} {p : Nat}

theorem firstRow_eq_some (h : firstRow rows taken check = some p) :
    p ∉ taken ∧ (∃ row, rows[p]? = some row ∧ row.state ≠ .failed ∧ check row = true) ∧
      ∀ q < p, ∀ row, rows[q]? = some row → row.state ≠ .failed → check row = true → q ∈ taken := by
  rw [firstRow, List.find?_range_eq_some] at h
  obtain ⟨hp, _, hbefore⟩ := h
  rw [Bool.and_eq_true, Option.any_eq_true] at hp
  obtain ⟨htaken, row, hrow, hcheck⟩ := hp
  refine ⟨by simpa using htaken, ⟨row, hrow, by simpa [isUsable] using hcheck⟩, ?_⟩
  intro q hq row' hrow' hstate hcheck'
  have hnot := hbefore q hq
  simpa [hrow', isUsable, hstate, hcheck'] using hnot

theorem firstRow_eq_none (h : firstRow rows taken check = none) :
    ∀ (q : Nat) row, rows[q]? = some row → row.state ≠ .failed → check row = true → q ∈ taken := by
  intro q row hrow hstate hcheck
  rw [firstRow, List.find?_range_eq_none] at h
  have hnot := h q (List.getElem?_eq_some_iff.mp hrow).1
  simpa [hrow, isUsable, hstate, hcheck] using hnot

/-- The first row that is not taken yet is given, or one before it. -/
theorem firstRow_le {row : Message} (hrow : rows[p]? = some row) (hstate : row.state ≠ .failed)
    (hcheck : check row = true) (htaken : p ∉ taken) : ∃ q ≤ p, firstRow rows taken check = some q := by
  cases h : firstRow rows taken check with
  | none => exact absurd (firstRow_eq_none h p row hrow hstate hcheck) htaken
  | some q =>
    refine ⟨q, ?_, rfl⟩
    by_contra hlt
    exact htaken ((firstRow_eq_some h).2.2 p (by omega) row hrow hstate hcheck)

/-- A narrower check finds the same row where the row found passes it. -/
theorem firstRow_narrow {used : List Nat} {narrow : Message → Bool}
    (hnarrow : ∀ (q : Nat) row, rows[q]? = some row → narrow row = true →
      check row = true ∧ (q ∈ taken → q ∈ used))
    (hfound : ∀ (q : Nat) row, firstRow rows taken check = some q → rows[q]? = some row →
      narrow row = true ∧ q ∉ used) :
    firstRow rows used narrow = firstRow rows taken check := by
  cases h : firstRow rows taken check with
  | none =>
    cases h' : firstRow rows used narrow with
    | none => rfl
    | some q =>
      obtain ⟨hused, ⟨row, hrow, hstate, hpass⟩, _⟩ := firstRow_eq_some h'
      obtain ⟨hcheck, hback⟩ := hnarrow q row hrow hpass
      exact absurd (hback (firstRow_eq_none h q row hrow hstate hcheck)) hused
  | some p =>
    obtain ⟨_, ⟨row, hrow, hstate, _⟩, hbefore⟩ := firstRow_eq_some h
    obtain ⟨hpass, hused⟩ := hfound p row h hrow
    obtain ⟨q, hle, hq⟩ := firstRow_le hrow hstate hpass hused
    obtain ⟨hused', ⟨row', hrow', hstate', hpass'⟩, _⟩ := firstRow_eq_some hq
    obtain ⟨hcheck', hback⟩ := hnarrow q row' hrow' hpass'
    have hqp : q = p := by
      by_contra hne
      exact hused' (hback (hbefore q (by omega) row' hrow' hstate' hcheck'))
    rw [hq, hqp]

theorem found_named {c : String} (hc : item.clientId = some c) :
    found rows allowText taken item = firstRow rows taken fun row => row.id = c := by
  simp [found, hc]

theorem found_unnamed (hc : item.clientId = none) : found rows allowText taken item =
    if allowText then firstRow rows taken (evidence item) else none := by
  cases allowText <;> simp [found, hc]

theorem found_spec (h : found rows allowText taken item = some p) :
    p ∉ taken ∧ ∃ row, rows[p]? = some row ∧ row.state ≠ .failed ∧
      (item.clientId = some row.id ∨
        item.clientId = none ∧ allowText = true ∧ evidence item row = true) := by
  cases hc : item.clientId with
  | some c =>
    rw [found_named hc] at h
    obtain ⟨htaken, ⟨row, hrow, hstate, hcheck⟩, _⟩ := firstRow_eq_some h
    exact ⟨htaken, row, hrow, hstate, .inl (by rw [of_decide_eq_true hcheck])⟩
  | none =>
    rw [found_unnamed hc] at h
    cases allowText with
    | false => simp at h
    | true =>
      obtain ⟨htaken, ⟨row, hrow, hstate, hcheck⟩, _⟩ := firstRow_eq_some h
      exact ⟨htaken, row, hrow, hstate, .inr ⟨rfl, rfl, hcheck⟩⟩

theorem found_not_taken (taken : List Nat) (item : UserItem) (p : Nat)
    (h : found rows allowText taken item = some p) : p ∉ taken := (found_spec h).1

theorem exists_item {found : Option Nat} {i : Nat}
    (h : (matchRows items rows allowText)[i]? = some found) : ∃ item, items[i]? = some item := by
  have hlt : i < (matchRows items rows allowText).length := (List.getElem?_eq_some_iff.mp h).1
  rw [matchRows, length_firstFit] at hlt
  exact ⟨items[i], List.getElem?_eq_getElem hlt⟩

theorem matchRows_spec {i : Nat} (h : (matchRows items rows allowText)[i]? = some (some p)) :
    ∃ item row, items[i]? = some item ∧ rows[p]? = some row ∧ row.state ≠ .failed ∧
      (item.clientId = some row.id ∨
        item.clientId = none ∧ allowText = true ∧ evidence item row = true) := by
  obtain ⟨item, hitem⟩ := exists_item h
  rw [matchRows, firstFit_getElem? hitem, Option.some_inj] at h
  obtain ⟨_, row, hrow, hstate, hwhy⟩ := found_spec h
  exact ⟨item, row, hitem, hrow, hstate, hwhy⟩

theorem matchRows_once {i j : Nat} (hi : (matchRows items rows allowText)[i]? = some (some p))
    (hj : (matchRows items rows allowText)[j]? = some (some p)) : i = j :=
  firstFit_once found_not_taken hi hj

/-- A row that passes the text rule is taken before the item, or is given, or one before it is. -/
theorem matchRows_first {i : Nat} {row : Message} (hitem : items[i]? = some item)
    (hc : item.clientId = none) (hrow : rows[p]? = some row) (hstate : row.state ≠ .failed)
    (hcheck : evidence item row = true) :
    (∃ j < i, (matchRows items rows true)[j]? = some (some p)) ∨
      ∃ q ≤ p, (matchRows items rows true)[i]? = some (some q) := by
  by_cases htaken : p ∈ takenAt (found rows true) [] items i
  · left
    simpa [matchRows] using mem_takenAt.mp htaken
  · right
    rw [matchRows, firstFit_getElem? hitem, found_unnamed hc, if_pos rfl]
    obtain ⟨q, hle, hq⟩ := firstRow_le hrow hstate hcheck htaken
    exact ⟨q, hle, by rw [hq]⟩

theorem matchWith_eq_some {i : Nat} {id : String}
    (h : (matchWith items rows allowText)[i]? = some (some id)) :
    ∃ p row, (matchRows items rows allowText)[i]? = some (some p) ∧ rows[p]? = some row ∧
      row.id = id := by
  rw [matchWith, List.getElem?_map, Option.map_eq_some_iff] at h
  obtain ⟨found, hfound, hid⟩ := h
  obtain ⟨p, rfl, hp⟩ := Option.bind_eq_some_iff.mp hid
  obtain ⟨row, hrow, hid⟩ := Option.map_eq_some_iff.mp hp
  exact ⟨p, row, hfound, hrow, hid⟩

theorem spare_not_taken (taken : List Nat) (item : UserItem) (p : Nat)
    (h : spare items rows taken item = some p) : p ∉ taken := by
  rw [spare] at h
  by_cases hc : item.clientId.isSome
  · simp [hc] at h
  · rw [if_neg hc] at h
    exact (firstRow_eq_some h).1

theorem spares_spec {i : Nat} (h : (spares items rows)[i]? = some (some p)) :
    ∃ item row, items[i]? = some item ∧ item.clientId = none ∧ rows[p]? = some row ∧
      row.state ≠ .failed ∧ evidence item row = true ∧
      ∀ named ∈ items, named.clientId ≠ some row.id := by
  have hlt : i < items.length := by
    have hlt := (List.getElem?_eq_some_iff.mp h).1
    rwa [spares, length_firstFit] at hlt
  have hitem : items[i]? = some items[i] := List.getElem?_eq_getElem hlt
  rw [spares, firstFit_getElem? hitem, Option.some_inj, spare] at h
  by_cases hc : items[i].clientId.isSome
  · rw [if_pos hc] at h
    simp at h
  · rw [if_neg hc] at h
    obtain ⟨_, ⟨row, hrow, hstate, hcheck⟩, _⟩ := firstRow_eq_some h
    rw [Bool.and_eq_true, List.all_eq_true] at hcheck
    refine ⟨items[i], row, hitem, by simpa using hc, hrow, hstate, hcheck.1, ?_⟩
    intro named hnamed
    exact of_decide_eq_true (hcheck.2 named hnamed)

theorem exists_first_named {id : String} (h : ∃ named ∈ items, named.clientId = some id) :
    ∃ (k : Nat) (item : UserItem), items[k]? = some item ∧ item.clientId = some id ∧
      ∀ j < k, ∀ before, items[j]? = some before → before.clientId ≠ some id := by
  classical
  have hex : ∃ (k : Nat) (item : UserItem), items[k]? = some item ∧ item.clientId = some id := by
    obtain ⟨named, hmem, hc⟩ := h
    obtain ⟨k, hk⟩ := List.mem_iff_getElem?.mp hmem
    exact ⟨k, named, hk, hc⟩
  obtain ⟨item, hitem, hc⟩ := Nat.find_spec hex
  refine ⟨Nat.find hex, item, hitem, hc, ?_⟩
  intro j hj before hbefore hid
  exact Nat.find_min hex hj ⟨before, hbefore, hid⟩

/-- So far no item without a client id was given a row that some item names. -/
def Unstolen (items : List UserItem) (rows : List Message) (n : Nat) : Prop :=
  ∀ j < n, ∀ item p row, items[j]? = some item → item.clientId = none → rows[p]? = some row →
    (matchRows items rows true)[j]? = some (some p) → ∀ named ∈ items, named.clientId ≠ some row.id

theorem spares_eq {n : Nat} (hfree : Unstolen items rows n) {i : Nat} (hi : i < n) (item : UserItem)
    (hitem : items[i]? = some item) (hc : item.clientId = none) :
    (spares items rows)[i]? = (matchRows items rows true)[i]? := by
  induction i using Nat.strongRecOn generalizing item with
  | _ i ih =>
    have hpick : (matchRows items rows true)[i]? =
        some (firstRow rows (takenAt (found rows true) [] items i) (evidence item)) := by
      rw [matchRows, firstFit_getElem? hitem, found_unnamed hc, if_pos rfl]
    rw [hpick, spares, firstFit_getElem? hitem, spare, if_neg (by simp [hc])]
    congr 1
    apply firstRow_narrow
    · intro q row hrow hpass
      rw [Bool.and_eq_true, List.all_eq_true] at hpass
      refine ⟨hpass.1, fun hmem => ?_⟩
      obtain ⟨j, hj, hq⟩ := by simpa using mem_takenAt.mp hmem
      obtain ⟨before, row', hbefore, hrow', _, hwhy⟩ := matchRows_spec hq
      have hrows : row = row' := Option.some_inj.mp (hrow.symm.trans hrow')
      have hnone : before.clientId = none := by
        cases hwhy with
        | inl hnamed =>
          have hnot := of_decide_eq_true (hpass.2 before (List.mem_of_getElem? hbefore))
          exact absurd (hrows ▸ hnamed) hnot
        | inr hunnamed => exact hunnamed.1
      exact mem_takenAt.mpr (.inl ⟨j, hj, (ih j hj (by omega) before hbefore hnone).trans hq⟩)
    · intro q row hq hrow
      have hnamed := hfree i hi item q row hitem hc hrow (hpick.trans (congrArg some hq))
      obtain ⟨htaken, ⟨row', hrow', _, hcheck⟩, _⟩ := firstRow_eq_some hq
      have hrows : row = row' := Option.some_inj.mp (hrow.symm.trans hrow')
      constructor
      · rw [Bool.and_eq_true, List.all_eq_true]
        exact ⟨hrows ▸ hcheck, fun named hmem => decide_eq_true (hnamed named hmem)⟩
      · intro hmem
        obtain ⟨j, hj, hspare⟩ := (mem_takenAt.mp hmem).resolve_right List.not_mem_nil
        obtain ⟨before, _, hbefore, hnone, _⟩ := spares_spec hspare
        have hsame := ih j hj (by omega) before hbefore hnone
        exact htaken (mem_takenAt.mpr (.inl ⟨j, hj, hsame.symm.trans hspare⟩))

section

variable (hids : (rows.map Message.id).Nodup)
include hids

theorem position_eq {p q : Nat} {row row' : Message} (hp : rows[p]? = some row)
    (hq : rows[q]? = some row') (hid : row.id = row'.id) : p = q := by
  have hlt : p < (rows.map Message.id).length := by
    rw [List.length_map]
    exact (List.getElem?_eq_some_iff.mp hp).1
  apply (List.getElem?_inj hlt hids).mp
  rw [List.getElem?_map, List.getElem?_map, hp, hq, Option.map_some, Option.map_some, hid]

theorem gives_iff {i : Nat} {row : Message} (hrow : rows[p]? = some row) :
    Gives (matchWith items rows allowText) i row ↔
      (matchRows items rows allowText)[i]? = some (some p) := by
  constructor
  · intro h
    obtain ⟨q, row', hq, hrow', hid⟩ := matchWith_eq_some h
    have hpq : q = p := position_eq hids hrow' hrow hid
    rw [← hpq, hq]
  · intro h
    rw [Gives, matchWith, List.getElem?_map, h]
    simp [hrow]

theorem attributed (items : List UserItem) (allowText : Bool) :
    Attributed allowText items rows (matchWith items rows allowText) where
  length := by simp [matchWith, matchRows]
  usable := by
    intro i id h
    obtain ⟨p, row, hp, hrow, hid⟩ := matchWith_eq_some h
    obtain ⟨_, row', _, hrow', hstate, _⟩ := matchRows_spec hp
    have heq : row = row' := Option.some_inj.mp (hrow.symm.trans hrow')
    exact ⟨row, List.mem_of_getElem? hrow, hid, heq ▸ hstate⟩
  once := by
    intro i j row hi hj
    obtain ⟨p, row', hp, hrow, hid⟩ := matchWith_eq_some hi
    obtain ⟨q, row'', hq, hrow', hid'⟩ := matchWith_eq_some hj
    have hpq : p = q := position_eq hids hrow hrow' (hid.trans hid'.symm)
    exact matchRows_once hp (hpq ▸ hq)
  own := by
    intro i item c id hitem hc h
    obtain ⟨p, row, hp, hrow, hid⟩ := matchWith_eq_some h
    obtain ⟨item', row', hitem', hrow', _, hwhy⟩ := matchRows_spec hp
    have hitems : item = item' := Option.some_inj.mp (hitem.symm.trans hitem')
    have hrows : row = row' := Option.some_inj.mp (hrow.symm.trans hrow')
    rw [← hitems, ← hrows, hc] at hwhy
    cases hwhy with
    | inl hnamed => rw [← hid, Option.some_inj.mp hnamed]
    | inr hunnamed => simp at hunnamed
  foreign := by
    intro i item c hitem hc hforeign
    have hnone : found rows allowText (takenAt (found rows allowText) [] items i) item = none := by
      cases h : found rows allowText (takenAt (found rows allowText) [] items i) item with
      | none => rfl
      | some p =>
        rw [found_named hc] at h
        obtain ⟨_, ⟨row, hrow, hstate, hcheck⟩, _⟩ := firstRow_eq_some h
        exact absurd (of_decide_eq_true hcheck) (hforeign row (List.mem_of_getElem? hrow) hstate)
    rw [matchWith, List.getElem?_map, matchRows, firstFit_getElem? hitem, hnone]
    rfl
  identified := by
    intro hallow i item hitem hc
    rw [matchWith, List.getElem?_map, matchRows, firstFit_getElem? hitem, found_unnamed hc, hallow]
    rfl
  text := by
    intro i item row hitem hc hrow h
    obtain ⟨p, row', hp, hrow', hid⟩ := matchWith_eq_some h
    obtain ⟨q, hq⟩ := List.mem_iff_getElem?.mp hrow
    have hpq : p = q := position_eq hids hrow' hq hid
    obtain ⟨item', row'', hitem', hrow'', _, hwhy⟩ := matchRows_spec hp
    have hitems : item = item' := Option.some_inj.mp (hitem.symm.trans hitem')
    have hrows : row = row'' := Option.some_inj.mp (hq.symm.trans (hpq ▸ hrow''))
    rw [← hitems, ← hrows, hc] at hwhy
    cases hwhy with
    | inl hnamed => simp at hnamed
    | inr hunnamed => exact hunnamed.2.2
  first := by
    intro hallow i item p row hitem hc hrow hstate hcheck
    rw [hallow]
    cases matchRows_first hitem hc hrow hstate hcheck with
    | inl hbefore =>
      obtain ⟨j, hj, hp⟩ := hbefore
      exact .inl ⟨j, hj, (gives_iff hids hrow).mpr hp⟩
    | inr hfirst =>
      obtain ⟨q, hle, hq⟩ := hfirst
      obtain ⟨_, other, _, hother, _, _⟩ := matchRows_spec hq
      exact .inr ⟨q, hle, other, hother, (gives_iff hids hother).mpr hq⟩
  order := by
    intro i j p q item row row' hij hitem hc hrow hrow' hi hj hcheck
    have hp := (gives_iff hids hrow).mp hi
    have hq := (gives_iff hids hrow').mp hj
    obtain ⟨_, row'', _, hrow'', hstate, _⟩ := matchRows_spec hq
    have hrows : row' = row'' := Option.some_inj.mp (hrow'.symm.trans hrow'')
    have hallow : allowText = true := by
      obtain ⟨item', _, hitem', _, _, hwhy⟩ := matchRows_spec hp
      have hitems : item = item' := Option.some_inj.mp (hitem.symm.trans hitem')
      rw [← hitems, hc] at hwhy
      exact (hwhy.resolve_left (by simp)).2.1
    subst hallow
    cases matchRows_first hitem hc hrow' (hrows ▸ hstate) hcheck with
    | inl hbefore =>
      obtain ⟨k, hk, hqk⟩ := hbefore
      have hkj : k = j := matchRows_once hqk hq
      omega
    | inr hfirst =>
      obtain ⟨q', hle, hq'⟩ := hfirst
      have hpq' : p = q' := by simpa using hp.symm.trans hq'
      have hne : p ≠ q := by
        intro heq
        have hijeq : i = j := matchRows_once hp (heq ▸ hq)
        omega
      omega

/-- A row that nobody was given yet goes to the item that names it. -/
theorem matchRows_named {i : Nat} {row : Message} (hitem : items[i]? = some item)
    (hc : item.clientId = some row.id) (hrow : rows[p]? = some row) (hstate : row.state ≠ .failed)
    (hfree : ∀ j < i, (matchRows items rows allowText)[j]? ≠ some (some p)) :
    (matchRows items rows allowText)[i]? = some (some p) := by
  have htaken : p ∉ takenAt (found rows allowText) [] items i := by
    intro hmem
    obtain ⟨j, hj, heq⟩ := by simpa using mem_takenAt.mp hmem
    exact hfree j hj heq
  have hfirst : ∃ q ≤ p, firstRow rows (takenAt (found rows allowText) [] items i)
      (fun row' => row'.id = row.id) = some q :=
    firstRow_le hrow hstate (decide_eq_true rfl) htaken
  obtain ⟨q, _, hq⟩ := hfirst
  obtain ⟨_, ⟨row', hrow', _, hid⟩, _⟩ := firstRow_eq_some hq
  have hqp : q = p := position_eq hids hrow' hrow (of_decide_eq_true hid)
  rw [matchRows, firstFit_getElem? hitem, found_named hc, hq, hqp]

/-- By its id a row is only given to an item that names it. -/
theorem claimed_identified (items : List UserItem) :
    Claimed items rows (matchIdentifiedItems items rows) := by
  intro i item row hitem hmem hstate hc hfirst
  obtain ⟨p, hrow⟩ := List.mem_iff_getElem?.mp hmem
  apply (gives_iff hids hrow).mpr
  apply matchRows_named hids hitem hc hrow hstate
  intro j hj hp
  obtain ⟨before, row', hbefore, hrow', _, hwhy⟩ := matchRows_spec hp
  have hrows : row = row' := Option.some_inj.mp (hrow.symm.trans hrow')
  cases hwhy with
  | inl hnamed => exact hfirst j hj before hbefore (hrows ▸ hnamed)
  | inr hunnamed => simp at hunnamed

/-- Up to there a named row goes to the first item that names it. -/
theorem named_of_unstolen {n : Nat} (hfree : Unstolen items rows n) {i : Nat} (hi : i ≤ n)
    {row : Message} (hitem : items[i]? = some item) (hc : item.clientId = some row.id)
    (hrow : rows[p]? = some row) (hstate : row.state ≠ .failed)
    (hfirst : ∀ j < i, ∀ before, items[j]? = some before → before.clientId ≠ some row.id) :
    (matchRows items rows true)[i]? = some (some p) := by
  apply matchRows_named hids hitem hc hrow hstate
  intro j hj hp
  obtain ⟨before, row', hbefore, hrow', _, hwhy⟩ := matchRows_spec hp
  have hrows : row = row' := Option.some_inj.mp (hrow.symm.trans hrow')
  cases hwhy with
  | inl hnamed => exact hfirst j hj before hbefore (hrows ▸ hnamed)
  | inr hunnamed =>
    have hnot := hfree j (by omega) before p row hbefore hunnamed.1 hrow hp
    exact hnot item (List.mem_of_getElem? hitem) hc

theorem claimed_of_unstolen (hfree : ∀ n, Unstolen items rows n) :
    Claimed items rows (matchItems items rows) := by
  intro i item row hitem hmem hstate hc hfirst
  obtain ⟨p, hrow⟩ := List.mem_iff_getElem?.mp hmem
  apply (gives_iff hids hrow).mpr
  exact named_of_unstolen hids (hfree i) le_rfl hitem hc hrow hstate hfirst

theorem unstolen_of_claimed (hclaimed : Claimed items rows (matchItems items rows)) (n : Nat) :
    Unstolen items rows n := by
  intro j _ item p row hitem hc hrow hp named hnamed hid
  obtain ⟨k, first, hfirst, hck, hbefore⟩ := exists_first_named ⟨named, hnamed, hid⟩
  obtain ⟨_, row', _, hrow', hstate, _⟩ := matchRows_spec hp
  have hrows : row = row' := Option.some_inj.mp (hrow.symm.trans hrow')
  have hgives := hclaimed k first row hfirst (List.mem_of_getElem? hrow) (hrows ▸ hstate) hck hbefore
  have hkj : k = j := matchRows_once ((gives_iff hids hrow).mp hgives) hp
  rw [hkj, hitem, Option.some_inj] at hfirst
  rw [← hfirst, hc] at hck
  simp at hck

theorem spared_of_claimed (hclaimed : Claimed items rows (matchItems items rows)) :
    Spared items rows := by
  intro i item p row hitem hc hrow hstate hcheck hlater hbefore
  have hfree := unstolen_of_claimed hids hclaimed
  have hsame := spares_eq (hfree (i + 1)) (Nat.lt_succ_self i) item hitem hc
  obtain ⟨named, hnamed, hid⟩ := hlater
  cases matchRows_first hitem hc hrow hstate hcheck with
  | inl htaken =>
    obtain ⟨j, hj, hp⟩ := htaken
    obtain ⟨before, row', hitem', hrow', _, hwhy⟩ := matchRows_spec hp
    have hrows : row = row' := Option.some_inj.mp (hrow.symm.trans hrow')
    cases hwhy with
    | inl hby => exact absurd (hrows ▸ hby) (hbefore j hj before hitem')
    | inr hby => exact absurd hid (hfree (j + 1) j (by omega) before p row hitem' hby.1 hrow hp named hnamed)
  | inr hfirst =>
    obtain ⟨q, hle, hq⟩ := hfirst
    have hne : q ≠ p := by
      intro heq
      rw [heq] at hq
      exact hfree (i + 1) i (Nat.lt_succ_self i) item p row hitem hc hrow hq named hnamed hid
    exact ⟨q, by omega, hsame.trans hq⟩

theorem unstolen_of_spared (hspared : Spared items rows) (n : Nat) : Unstolen items rows n := by
  induction n with
  | zero => exact fun j hj => absurd hj (Nat.not_lt_zero j)
  | succ n ih =>
    intro j hj item p row hitem hc hrow hp named hnamed hid
    by_cases hlt : j < n
    · exact ih j hlt item p row hitem hc hrow hp named hnamed hid
    have hjn : j = n := by omega
    subst hjn
    obtain ⟨item', row', hitem', hrow', hstate, hwhy⟩ := matchRows_spec hp
    have hitems : item = item' := Option.some_inj.mp (hitem.symm.trans hitem')
    have hrows : row = row' := Option.some_inj.mp (hrow.symm.trans hrow')
    rw [← hrows] at hstate
    rw [← hitems, ← hrows, hc] at hwhy
    have hcheck := (hwhy.resolve_left (by simp)).2.2
    -- An earlier item that names the row would have it.
    have hbefore : ∀ k < j, ∀ before, items[k]? = some before → before.clientId ≠ some row.id := by
      intro k hk before hbefore hck
      obtain ⟨m, first, hfirst, hcm, hmin⟩ :=
        exists_first_named ⟨before, List.mem_of_getElem? hbefore, hck⟩
      have hmk : m ≤ k := by
        by_contra hkm
        exact hmin k (by omega) before hbefore hck
      have hgiven := named_of_unstolen hids ih (by omega) hfirst hcm hrow hstate hmin
      have hmj : m = j := matchRows_once hgiven hp
      omega
    obtain ⟨q, hqp, hspare⟩ :=
      hspared j item p row hitem hc hrow hstate hcheck ⟨named, hnamed, hid⟩ hbefore
    obtain ⟨_, other, hitem'', _, hother, hstate', hcheck', hunnamed⟩ := spares_spec hspare
    have hsame : item = _ := Option.some_inj.mp (hitem.symm.trans hitem'')
    rw [← hsame] at hcheck'
    -- The spare row is still there, and comes first.
    cases matchRows_first hitem hc hother hstate' hcheck' with
    | inl htaken =>
      obtain ⟨k, hk, hqk⟩ := htaken
      obtain ⟨before, other', hbefore', hother', _, hby⟩ := matchRows_spec hqk
      have hothers : other = other' := Option.some_inj.mp (hother.symm.trans hother')
      cases hby with
      | inl hby => exact hunnamed before (List.mem_of_getElem? hbefore') (hothers ▸ hby)
      | inr hby =>
        have hagree := spares_eq ih hk before hbefore' hby.1
        have hkj : k = j := firstFit_once spare_not_taken (hagree.trans hqk) hspare
        omega
    | inr hfirst =>
      obtain ⟨q', hle, hq'⟩ := hfirst
      have hpq : p = q' := by simpa using hp.symm.trans hq'
      omega

end

end

/-- What is promised of the receipts: the rules above, and a named row goes to its own item. -/
structure Receipts (allowText : Bool) (items : List UserItem) (rows : List Message)
    (result : List (Option String)) : Prop where
  attributed : Attributed allowText items rows result
  claimed : Claimed items rows result

/-- By client ids alone every receipt goes to its own message. With the text rule the only thing
that can fail is that the text of an earlier item takes a row that a later item names, and it does
not exactly where such an item has a spare row. -/
theorem receipts_exact (items : List UserItem) (rows : List Message)
    (hids : (rows.map Message.id).Nodup) :
    Receipts false items rows (matchIdentifiedItems items rows) ∧
      Attributed true items rows (matchItems items rows) ∧
      (Receipts true items rows (matchItems items rows) ↔ Spared items rows) := by
  have hidentified := attributed hids items false
  have htext := attributed hids items true
  refine ⟨⟨hidentified, claimed_identified hids items⟩, htext, ?_⟩
  constructor
  · intro h
    exact spared_of_claimed hids h.claimed
  · intro h
    exact ⟨htext, claimed_of_unstolen hids (unstolen_of_spared hids h)⟩

/-- A row of one message that was sent in a turn. -/
def sentRow (id turn body : String) : Message where
  id := id
  fromInstance := "operator"
  toInstance := "g7-1"
  taskId := none
  body := body
  level := .queue
  state := .sent
  turnId := some turn
  createdAtUnixMs := 0
  updatedAtUnixMs := 0
  attemptedAtUnixMs := none

def userItem (turn : String) (clientId : Option String) (body : String) : UserItem :=
  ⟨turn, clientId, render "operator" none body⟩

/-- Two equal texts in one turn, the second one with the id of the only row. -/
theorem receipt_stolen :
    let items := [userItem "t-1" none "hi", userItem "t-1" (some "m-1") "hi"]
    let rows := [sentRow "m-1" "t-1" "hi"]
    (rows.map Message.id).Nodup ∧ matchItems items rows = [some "m-1", none] ∧
      ¬ Receipts true items rows (matchItems items rows) := by
  intro items rows
  have hresult : matchItems items rows = [some "m-1", none] := by decide
  refine ⟨by decide, hresult, fun h => ?_⟩
  have hgives := h.claimed 1 (userItem "t-1" (some "m-1") "hi") (sentRow "m-1" "t-1" "hi") rfl
    List.mem_cons_self (by decide) rfl (by decide)
  rw [Gives, hresult] at hgives
  revert hgives
  decide

/-- The same two texts with a second row, and an item of another turn that names its row. -/
theorem receipts_exact_spared :
    let items := [userItem "t-1" none "hi", userItem "t-1" (some "m-2") "hi",
      userItem "t-2" (some "m-3") "hi"]
    let rows := [sentRow "m-1" "t-1" "hi", sentRow "m-2" "t-1" "hi", sentRow "m-3" "t-2" "hi"]
    (rows.map Message.id).Nodup ∧
      matchItems items rows = [some "m-1", some "m-2", some "m-3"] ∧
      (Receipts true items rows (matchItems items rows) ↔ Spared items rows) :=
  ⟨by decide, by decide, (receipts_exact _ _ (by decide)).2.2⟩

end Agend.Codex
