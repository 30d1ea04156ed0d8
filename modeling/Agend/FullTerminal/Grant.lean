import Agend.FullTerminal.Window

/-! The window types only under its own live grant. -/
namespace Agend.FullTerminal

open Library

/-- Whether the exchange ends whatever was granted or asked before it. -/
def Exchange.ends : Exchange → Bool
  | .opened | .closed | .refused | .renewed | .stopped => true
  | _ => false

def Exchange.grants : Exchange → Bool
  | .granted _ _ _ _ => true
  | _ => false

section

variable {log : List Exchange} {x : Exchange} {t : Term} {f : FullView} {a : App} {ans : Answers}
  {id attach viewId generation : String} {size : TerminalSize}

/-- The Acquire was sent, and since then nothing answered or ended it. -/
def Asked (log : List Exchange) (id : String) (size : TerminalSize) : Prop :=
  ∃ mid past, log = mid ++ .acquire id size :: past ∧
    ∀ x ∈ mid, x.ends = false ∧ x.grants = false

/-- The last Acquire that was acknowledged granted this, with a complete frame of the size it asked
for, and nothing ended it since. -/
def Granted (log : List Exchange) (attach viewId generation : String) : Prop :=
  ∃ mid id size frame past, log = mid ++ .granted id attach viewId frame :: past ∧
    frame.generation = generation ∧ frame.size = size ∧ frame.cells.length = size.rows ∧
    Asked past id size ∧ ∀ x ∈ mid, x.ends = false ∧ x ≠ .readOnly ∧ x.grants = false

/-- The attach id that a Resize of the connection was sent with. -/
def sentResize (id : String) : List Exchange → Option String
  | [] => none
  | .opened :: _ => none
  | .resize id' attach :: log => if id' = id then some attach else sentResize id log
  | _ :: log => sentResize id log

theorem Asked.cons (h : Asked log id size) (hx : x.ends = false) (hg : x.grants = false) :
    Asked (x :: log) id size := by
  obtain ⟨mid, past, rfl, hmid⟩ := h
  refine ⟨x :: mid, past, rfl, fun y hy => ?_⟩
  rcases List.mem_cons.mp hy with rfl | hy
  · exact ⟨hx, hg⟩
  · exact hmid y hy

theorem Granted.cons (h : Granted log attach viewId generation) (hx : x.ends = false)
    (hr : x ≠ .readOnly) (hg : x.grants = false) : Granted (x :: log) attach viewId generation := by
  obtain ⟨mid, id, size, frame, past, rfl, hgen, hsize, hcells, hasked, hmid⟩ := h
  refine ⟨x :: mid, id, size, frame, past, rfl, hgen, hsize, hcells, hasked, fun y hy => ?_⟩
  rcases List.mem_cons.mp hy with rfl | hy
  · exact ⟨hx, hr, hg⟩
  · exact hmid y hy

/-- Every input is under a grant. -/
def Typed (log : List Exchange) : Prop :=
  ∀ newer older attach viewId generation,
    log = newer ++ .input attach viewId generation :: older →
    Granted older attach viewId generation

theorem Typed.cons (h : Typed log) (hx : ∀ attach viewId generation,
    x = .input attach viewId generation → Granted log attach viewId generation) :
    Typed (x :: log) := by
  intro newer older attach viewId generation he
  cases newer with
  | nil =>
    obtain ⟨rfl, rfl⟩ := List.cons.inj he
    exact hx attach viewId generation rfl
  | cons y newer =>
    obtain ⟨rfl, rfl⟩ := List.cons.inj he
    exact h newer older attach viewId generation rfl

/-- What the view holds of control is what the exchanges gave it. -/
structure HeldView (log : List Exchange) (t : Term) (f : FullView) : Prop where
  typing : t.typing = true →
    f.owner.isSome = true ∧ f.pending = none ∧ f.expanded = true ∧ t.mode = .live
  ready : f.owner.isSome = true ∨ f.pending.isSome = true →
    f.ready = true ∧ f.expanded = true
  asked : ∀ p, f.pending = some p → p.acquire = true → Asked log p.id p.size
  resizing : ∀ p, f.pending = some p → p.acquire = false →
    ∃ attach, f.owner = some attach ∧ sentResize p.id log = some attach
  owned : ∀ attach, f.owner = some attach →
    ∃ d, f.data = some d ∧ Granted log attach d.viewId d.frame.generation

/-- The view of a full terminal, if there is one, and the inputs so far. -/
def Held (a : App) : Prop :=
  (∀ t f, a.term = some t → t.full = some f → HeldView a.log t f) ∧ Typed a.log

theorem HeldView.idle (ht : t.typing = false) (ho : f.owner = none) (hp : f.pending = none) :
    HeldView log t f where
  typing h := by cases ht.symm.trans h
  ready h := by
    rw [ho, hp] at h
    rcases h with h | h <;> cases h
  asked p h := by cases hp.symm.trans h
  resizing p h := by cases hp.symm.trans h
  owned attach h := by cases ho.symm.trans h

/-- An exchange that ends nothing. -/
theorem HeldView.cons (h : HeldView log t f) (hx : x.ends = false) (hr : x ≠ .readOnly)
    (hg : x.grants = false) (hs : ∀ p, f.pending = some p → p.acquire = false →
      sentResize p.id (x :: log) = sentResize p.id log) : HeldView (x :: log) t f where
  typing := h.typing
  ready := h.ready
  asked p hp ha := (h.asked p hp ha).cons hx hg
  resizing p hp ha := by
    rw [hs p hp ha]
    exact h.resizing p hp ha
  owned attach ho := by
    obtain ⟨d, hd, hgranted⟩ := h.owned attach ho
    exact ⟨d, hd, hgranted.cons hx hr hg⟩

theorem Held.view (h : Held a) (ht : a.term = some t) (hf : t.full = some f) :
    HeldView a.log t f := h.1 t f ht hf

theorem held_put (hv : HeldView a.log t f) (hl : Typed a.log) :
    Held (a.put t f) := by
  refine ⟨fun t' f' ht' hf' => ?_, hl⟩
  obtain rfl := Option.some.inj ht'
  obtain rfl := Option.some.inj hf'
  exact ⟨hv.typing, hv.ready, hv.asked, hv.resizing, hv.owned⟩

/-- Nothing is typed, controlled or asked for. -/
structure Retired (a : App) : Prop where
  log : Typed a.log
  idle : ∀ t f, a.term = some t → t.full = some f →
    t.typing = false ∧ f.owner = none ∧ f.pending = none

theorem Retired.held (h : Retired a) : Held a :=
  ⟨fun t f ht hf =>
    let ⟨htyping, ho, hp⟩ := h.idle t f ht hf
    .idle htyping ho hp, h.log⟩

theorem typed_close (hl : Typed a.log) : Typed a.closeTerminal.log :=
  hl.cons fun _ _ _ he => by cases he

theorem retired_fullSendError (hl : Typed a.log) : Retired a.fullSendError := by
  refine ⟨typed_close hl, fun t f ht hf => ?_⟩
  obtain ⟨t', ht', rfl⟩ := Option.map_eq_some_iff.mp (show a.term.map _ = some t from ht)
  obtain ⟨f', hf', rfl⟩ := Option.map_eq_some_iff.mp (show t'.full.map _ = some f from hf)
  exact ⟨rfl, rfl, rfl⟩


/-- The rest of the view is not about control. -/
theorem HeldView.same {f' : FullView} (h : HeldView log t f) (ho : f'.owner = f.owner)
    (hp : f'.pending = f.pending) (he : f'.expanded = f.expanded) (hr : f'.ready = f.ready)
    (hd : f'.data = f.data) : HeldView log t f' := by
  constructor
  · rw [ho, hp, he]
    exact h.typing
  · rw [ho, hp, hr, he]
    exact h.ready
  · rw [hp]
    exact h.asked
  · rw [hp, ho]
    exact h.resizing
  · rw [ho, hd]
    exact h.owned

theorem held_fullSendError (hl : Typed a.log) : Held a.fullSendError :=
  (retired_fullSendError hl).held

theorem HeldView.untyped {t' : Term} (h : HeldView log t f) (ht : t'.typing = false) :
    HeldView log t' f where
  typing h := by cases ht.symm.trans h
  ready := h.ready
  asked := h.asked
  resizing := h.resizing
  owned := h.owned

theorem typed_note (hl : Typed a.log) (hx : ∀ attach viewId generation,
    x ≠ .input attach viewId generation) : Typed (a.note x).log :=
  hl.cons fun attach viewId generation he => absurd he (hx attach viewId generation)

theorem held_note (h : Held a) (hx : x.ends = false) (hr : x ≠ .readOnly) (hg : x.grants = false)
    (hi : ∀ attach viewId generation, x = .input attach viewId generation →
      Granted a.log attach viewId generation)
    (hs : ∀ id attach, x ≠ .resize id attach) : Held (a.note x) := by
  refine ⟨fun t f ht hf => (h.view ht hf).cons hx hr hg fun p _ _ => ?_, h.2.cons hi⟩
  cases x with
  | resize id attach => exact absurd rfl (hs id attach)
  | opened => cases hx
  | _ => rfl

theorem held_beginFull (h : Held a) : Held (a.beginFull ans) := by
  rcases ht : a.term with _ | t
  · simpa only [App.beginFull, ht] using h
  rcases hf : t.full with _ | f
  · simp only [App.beginFull, ht, hf]
    split_ifs <;> exact h
  have hv := h.view ht hf
  simp only [App.beginFull, ht, hf]
  split_ifs with hmode hready hdata
  · exact h
  · exact h
  · exact h
  split
  · refine ⟨fun t' f' ht' hf' => ?_, typed_note h.2 fun _ _ _ he => by cases he⟩
    obtain rfl := Option.some.inj ht'
    obtain rfl := Option.some.inj hf'
    exact {
      typing := fun h => by cases h
      ready := fun _ => ⟨by
        by_contra hn
        exact hready (Or.inl (Bool.eq_false_iff.mpr hn)), rfl⟩
      asked := fun p hp _ => by
        obtain rfl := Option.some.inj hp
        exact ⟨[], a.log, rfl, List.forall_mem_nil _⟩
      resizing := fun p hp ha => by
        obtain rfl := Option.some.inj hp
        cases ha
      owned := fun attach ho => by
        obtain ⟨d, hd, hgranted⟩ := hv.owned attach ho
        exact ⟨d, hd, hgranted.cons rfl (by simp) rfl⟩ }
  · exact held_fullSendError h.2

theorem held_selectFullViewport {top : Option Nat} {rows : Nat} (h : Held a) :
    Held (a.selectFullViewport ans top rows) := by
  rcases ht : a.term with _ | t
  · simpa only [App.selectFullViewport, ht] using h
  rcases hf : t.full with _ | f
  · simpa only [App.selectFullViewport, ht, hf] using h
  have hv := h.view ht hf
  simp only [App.selectFullViewport, ht, hf]
  split
  · exact h
  split
  · exact h
  split
  · exact held_put (hv.same rfl rfl rfl rfl rfl) h.2
  · exact held_fullSendError h.2

theorem followed_eq : (a.followed f).owner = f.owner ∧ (a.followed f).pending = f.pending ∧
    (a.followed f).expanded = f.expanded ∧ (a.followed f).ready = f.ready ∧
    (a.followed f).data = f.data := by
  unfold App.followed
  split
  · exact ⟨rfl, rfl, rfl, rfl, rfl⟩
  · simp only
    split_ifs <;> exact ⟨rfl, rfl, rfl, rfl, rfl⟩

theorem HeldView.followed (h : HeldView log t f) : HeldView log t (a.followed f) :=
  let ⟨ho, hp, he, hr, hd⟩ := followed_eq
  h.same ho hp he hr hd

theorem held_resizeFull (h : Held a) : Held (a.resizeFull ans) := by
  rcases ht : a.term with _ | t
  · simpa only [App.resizeFull, ht] using h
  rcases hf : t.full with _ | f
  · simp only [App.resizeFull, ht, hf]
    split_ifs <;> exact h
  have hv := h.view ht hf
  simp only [App.resizeFull, ht, hf]
  split
  · exact h
  split
  · exact h
  split
  · split
    · exact h
    split
    · exact held_put (hv.untyped rfl) h.2
    rcases ho : f.owner with _ | attach
    · exact held_put (hv.untyped rfl) h.2
    rcases hd : f.data with _ | d
    · exact held_put (hv.untyped rfl) h.2
    simp only
    split
    · refine ⟨fun t' f' ht' hf' => ?_, typed_note h.2 fun _ _ _ he => by cases he⟩
      obtain rfl := Option.some.inj ht'
      obtain rfl := Option.some.inj hf'
      exact {
        typing := fun h => by cases h
        ready := fun _ => hv.ready (Or.inl (by rw [ho]; rfl))
        asked := fun p hp ha => by
          obtain rfl := Option.some.inj hp
          cases ha
        resizing := fun p hp _ => by
          obtain rfl := Option.some.inj hp
          exact ⟨attach, ho, if_pos rfl⟩
        owned := fun attach ho => by
          obtain ⟨d, hd, hgranted⟩ := hv.owned attach ho
          exact ⟨d, hd, hgranted.cons rfl (by simp) rfl⟩ }
    · exact held_fullSendError h.2
  · have hb : Held (a.put t (a.followed f)) := held_put hv.followed h.2
    split_ifs
    · exact held_selectFullViewport hb
    · exact hb
    · exact held_selectFullViewport hb
    · exact hb

theorem held_scrollTerminal {delta : Int} (h : Held a) : Held (a.scrollTerminal ans delta) := by
  unfold App.scrollTerminal
  split
  · exact h
  · split
    · exact h
    · split
      · exact h
      · exact held_selectFullViewport h

theorem held_sendFullBytes {bytes : List UInt8} (h : Held a) : Held (a.sendFullBytes ans bytes) := by
  rcases ht : a.term with _ | t
  · simpa only [App.sendFullBytes, ht, ite_self] using h
  rcases hf : t.full with _ | f
  · simpa only [App.sendFullBytes, ht, hf, ite_self] using h
  have hv := h.view ht hf
  simp only [App.sendFullBytes, ht, hf]
  split_ifs with hbytes htyping hlength
  · exact h
  · exact h
  · exact h
  rcases ho : f.owner with _ | attach
  · exact h
  rcases hd : f.data with _ | d
  · exact h
  obtain ⟨d', hd', hgranted⟩ := hv.owned attach ho
  obtain rfl := Option.some.inj (hd.symm.trans hd')
  simp only
  split
  · refine held_note (held_put (hv.same rfl rfl rfl rfl rfl) h.2) rfl (by simp) rfl ?_ (by simp)
    intro attach' viewId generation he
    cases he
    exact hgranted
  · exact held_put (hv.same rfl rfl rfl rfl rfl) h.2
  · exact held_fullSendError h.2

theorem retired_of (hl : Typed a.log) (ha : a.term = some t) (hf : t.full = some f)
    (ht : t.typing = false) (ho : f.owner = none) (hp : f.pending = none) : Retired a := by
  refine ⟨hl, fun t' f' ht' hf' => ?_⟩
  obtain rfl := Option.some.inj (ha.symm.trans ht')
  obtain rfl := Option.some.inj (hf.symm.trans hf')
  exact ⟨ht, ho, hp⟩

theorem held_of (hl : Typed a.log) (ha : a.term = some t) (hf : t.full = some f)
    (ht : t.typing = false) (ho : f.owner = none) (hp : f.pending = none) : Held a :=
  (retired_of hl ha hf ht ho hp).held

/-- A frame of the same view and generation is under the same grant. -/
theorem HeldView.shown {t' : Term} {f' : FullView} {d : FrameData} (h : HeldView log t f)
    (ht : t'.typing = t.typing) (hm : t.mode = .live → t'.mode = .live)
    (ho : f'.owner = f.owner) (hp : f'.pending = f.pending) (he : f'.expanded = f.expanded)
    (hr : f'.ready = true) (hd : f'.data = some d) (hsame : ∀ old, f.ready = true →
      f.data = some old → d.viewId = old.viewId ∧ d.frame.generation = old.frame.generation) :
    HeldView log t' f' where
  typing htyping := by
    rw [ho, hp, he]
    obtain ⟨howner, hpending, hexpanded, hlive⟩ := h.typing (ht ▸ htyping)
    exact ⟨howner, hpending, hexpanded, hm hlive⟩
  ready := by
    rw [ho, hp, he, hr]
    exact fun h' => ⟨rfl, (h.ready h').2⟩
  asked := by
    rw [hp]
    exact h.asked
  resizing := by
    rw [hp, ho]
    exact h.resizing
  owned attach hattach := by
    rw [ho] at hattach
    obtain ⟨old, hold, hgranted⟩ := h.owned attach hattach
    have hready := (h.ready (Or.inl (by rw [hattach]; rfl))).1
    obtain ⟨hview, hgen⟩ := hsame old hready hold
    refine ⟨d, hd, ?_⟩
    rw [hview, hgen]
    exact hgranted

theorem held_onFrame {data : FrameData} (h : Held a) (hv : HeldView a.log t f) :
    Held (a.onFrame t f data) := by
  unfold App.onFrame
  split
  · exact h
  have hmode : t.mode = .live → (if t.mode = .stopped then .stopped else .live) = TermMode.live := by
    intro hlive
    rw [hlive]
    rfl
  simp only
  split
  · rename_i hold
    refine held_put (hv.shown rfl hmode rfl rfl rfl rfl rfl fun old hready hdata => ?_) h.2
    rw [if_pos hready, hdata] at hold
    cases hold
  rename_i old hold
  split
  · exact h
  rename_i hview
  split
  · exact held_of (typed_close (typed_note h.2 (by simp))) rfl rfl rfl rfl rfl
  rename_i hgen
  split
  · exact h
  refine held_put (hv.shown rfl hmode rfl rfl rfl rfl rfl fun old' hready hdata => ?_) h.2
  rw [if_pos hready] at hold
  obtain rfl := Option.some.inj (hold.symm.trans hdata)
  exact ⟨not_not.mp hview, not_not.mp hgen⟩

/-- What the hub answers to a Resize. -/
def HonestAck (log : List Exchange) : FullTerminalEvent → Prop
  | .controlAck data => ∀ attach acked, sentResize data.requestId log = some attach →
      data.control = .controlled acked → acked = attach
  | _ => True

theorem Granted.acked {frame : TerminalFrame} (h : Asked log id frame.size)
    (hc : frame.cells.length = frame.size.rows) :
    Granted (.granted id attach viewId frame :: log) attach viewId frame.generation :=
  ⟨[], id, frame.size, frame, log, rfl, rfl, rfl, hc, h, List.forall_mem_nil _⟩

theorem held_acknowledged {pending : Pending} {old : FrameData} {data : ControlAck}
    {frame : TerminalFrame} {typing : Bool} (h : Held a) (hv : HeldView a.log t f)
    (hp : f.pending = some pending) (hd : f.data = some old) (hid : data.requestId = pending.id)
    (hview : data.viewId = old.viewId) (hsize : frame.size = pending.size)
    (hcells : frame.cells.length = frame.size.rows)
    (hgen : frame.generation = old.frame.generation) (hcontrol : data.control = .controlled attach)
    (hhonest : HonestAck a.log (.controlAck data))
    (htyping : typing = true → f.expanded = true ∧ t.mode = .live) :
    Held (a.acknowledged t f pending data frame attach typing) := by
  have hready := hv.ready (Or.inr (by rw [hp]; rfl))
  unfold App.acknowledged
  simp only
  split
  · rename_i hacquire
    refine ⟨fun t' f' ht' hf' => ?_, typed_note h.2 (by simp)⟩
    obtain rfl := Option.some.inj ht'
    obtain rfl := Option.some.inj hf'
    have hasked := hv.asked pending hp hacquire
    rw [← hsize] at hasked
    exact {
      typing := fun h => ⟨rfl, rfl, (htyping h).1, (htyping h).2⟩
      ready := fun _ => hready
      asked := fun p hp => by cases hp
      resizing := fun p hp => by cases hp
      owned := fun attach' ho => by
        obtain rfl := Option.some.inj ho
        exact ⟨_, rfl, .acked hasked hcells⟩ }
  · rename_i hacquire
    rw [Bool.not_eq_true] at hacquire
    obtain ⟨attach', howner, hsent⟩ := hv.resizing pending hp hacquire
    rw [← hid] at hsent
    obtain rfl := hhonest attach' attach hsent hcontrol
    obtain ⟨d, hdata, hgranted⟩ := hv.owned attach howner
    obtain rfl := Option.some.inj (hd.symm.trans hdata)
    refine held_put ⟨fun h => ⟨rfl, rfl, (htyping h).1, (htyping h).2⟩, fun _ => hready,
      fun p hp => (by cases hp), fun p hp => (by cases hp), fun attach' ho => ?_⟩ h.2
    obtain rfl := Option.some.inj ho
    refine ⟨_, rfl, ?_⟩
    rw [hview, hgen]
    exact hgranted

theorem held_onControlAck {data : ControlAck} (h : Held a) (hv : HeldView a.log t f)
    (hhonest : HonestAck a.log (.controlAck data)) : Held (a.onControlAck ans t f data) := by
  unfold App.onControlAck
  split
  · exact held_put (hv.same rfl rfl rfl rfl rfl) h.2
  split
  case h_2 => exact h
  rename_i pending old hp hd
  split
  · exact h
  rename_i hid
  split
  · exact h
  rename_i hgen
  split
  · exact held_fullSendError h.2
  rename_i frame hframe
  split
  · exact held_fullSendError h.2
  rename_i hcomplete
  push Not at hid hgen hcomplete
  obtain ⟨hsize, hcells, hframegen, -⟩ := hcomplete
  split
  · exact held_of (typed_note h.2 (by simp)) rfl rfl rfl rfl rfl
  rename_i attach hcontrol
  have hb : Held (a.acknowledged t f pending data frame attach
      (f.expanded && a.fullSize = frame.size && t.mode = .live)) :=
    held_acknowledged h hv hp hd hid.1 hgen.1 hsize hcells hframegen hcontrol hhonest
      fun htyping => by
        simp only [Bool.and_eq_true, decide_eq_true_eq] at htyping
        exact ⟨htyping.1.1, htyping.2⟩
  simp only
  split
  · exact held_resizeFull hb
  · exact hb

theorem held_onControlChanged {control : TerminalControlState} (h : Held a)
    (hv : HeldView a.log t f) : Held (a.onControlChanged t f viewId generation control) := by
  unfold App.onControlChanged
  split
  case isFalse => exact h
  simp only
  split
  · rename_i hacquire
    refine ⟨fun t' f' ht' hf' => ?_, typed_note h.2 (by simp)⟩
    obtain rfl := Option.some.inj ht'
    obtain rfl := Option.some.inj hf'
    exact {
      typing := fun h => by cases h
      ready := fun hp => hv.ready (Or.inr (by simpa using hp))
      asked := fun p hp ha => (hv.asked p hp ha).cons rfl rfl
      resizing := fun p hp ha => by
        have hpending : f.pending = some p := hp
        rw [hpending, Option.any_some, ha] at hacquire
        cases hacquire
      owned := fun attach ho => by cases ho }
  · exact held_of (typed_note h.2 (by simp)) rfl rfl rfl rfl rfl

theorem held_onRefused {requestId : Option String} {code : String} (h : Held a)
    (hv : HeldView a.log t f) : Held (a.onRefused ans t f requestId code) := by
  have hput : Held (a.put t { f with
      inputPending := f.inputPending.filter fun id => requestId ≠ some id }) :=
    held_put (hv.same rfl rfl rfl rfl rfl) h.2
  unfold App.onRefused
  simp only
  split
  · exact hput
  split
  · exact hput
  split
  · exact held_of (typed_note h.2 (by simp)) rfl rfl rfl rfl rfl
  split
  · split
    · refine ⟨fun t' f' ht' hf' => ?_, typed_close h.2⟩
      obtain rfl := Option.some.inj ht'
      cases hf'
    · exact held_fullSendError (typed_close h.2)
  · exact held_of (typed_close (typed_note h.2 (by simp))) rfl rfl rfl rfl rfl

theorem held_onClosed (h : Held a) : Held (a.onClosed t f) :=
  held_of (typed_close h.2) rfl rfl rfl rfl rfl

theorem held_handle {e : FullTerminalEvent} (h : Held a) (he : HonestAck a.log e) :
    Held (a.handle ans e) := by
  rcases ht : a.term with _ | t
  · simpa only [App.handle, ht] using h
  rcases hf : t.full with _ | f
  · simpa only [App.handle, ht, hf] using h
  have hv := h.view ht hf
  simp only [App.handle, ht, hf]
  cases e with
  | frame data => exact held_onFrame h hv
  | controlAck data => exact held_onControlAck h hv he
  | controlChanged viewId generation control => exact held_onControlChanged h hv
  | refused requestId code => exact held_onRefused h hv
  | closed => exact held_onClosed h

/-- What the hub answers to each Resize while the events are applied. -/
def Honest (ans : Answers) : App → List FullTerminalEvent → Prop
  | _, [] => True
  | a, e :: events => HonestAck a.log e ∧ Honest ans (a.handle ans e) events

theorem held_handles {events : List FullTerminalEvent} (h : Held a) (he : Honest ans a events) :
    Held (events.foldl (App.handle ans) a) := by
  induction events generalizing a with
  | nil => exact h
  | cons e events ih => exact ih (held_handle h he.1) he.2

theorem held_pumpFullTerminal {events : List FullTerminalEvent} (h : Held a)
    (he : Honest ans a events) : Held (a.pumpFullTerminal ans events) :=
  held_resizeFull (held_handles h he)

/-- A terminal that nobody has typed into. -/
theorem retired_new {t : Term} (hl : Typed a.log) (ha : a.term = some t) (ht : t.typing = false)
    (hf : ∀ f, t.full = some f → f.owner = none ∧ f.pending = none) : Retired a := by
  refine ⟨hl, fun t' f' ht' hf' => ?_⟩
  obtain rfl := Option.some.inj (ha.symm.trans ht')
  exact ⟨ht, hf f' hf'⟩

theorem newFullTerm_spec {agent : String} {mode : TermMode} {b : App}
    {r : Except SourceError (Option Term)} (h : a.newFullTerm ans agent mode = (b, r))
    (hl : Typed a.log) : Typed b.log ∧ b.term = a.term ∧ ∀ t, r = .ok (some t) →
      t.typing = false ∧ ∀ f, t.full = some f → f.owner = none ∧ f.pending = none := by
  unfold App.newFullTerm at h
  simp only at h
  split at h
  · obtain ⟨rfl, rfl⟩ := Prod.mk.inj h
    refine ⟨typed_note (typed_close hl) (by simp), rfl, fun t ht => ?_⟩
    obtain rfl := Option.some.inj (Except.ok.inj ht)
    refine ⟨rfl, fun f hf => ?_⟩
    obtain rfl := Option.some.inj hf
    exact ⟨rfl, rfl⟩
  · obtain ⟨rfl, rfl⟩ := Prod.mk.inj h
    exact ⟨typed_close hl, rfl, fun t ht => by cases ht⟩
  · obtain ⟨rfl, rfl⟩ := Prod.mk.inj h
    exact ⟨typed_close hl, rfl, fun t ht => by cases ht⟩

theorem retired_reopenTerminal {agent : String} (hl : Typed a.log) :
    Retired (a.reopenTerminal ans agent) := by
  unfold App.reopenTerminal
  simp only
  split <;> rename_i b _ hnew <;> obtain ⟨hlog, hterm, hfresh⟩ := newFullTerm_spec hnew hl
  · rename_i t
    obtain ⟨htyping, hfull⟩ := hfresh t rfl
    refine retired_new hlog rfl htyping fun f hf => ?_
    obtain ⟨f', hf', rfl⟩ := Option.map_eq_some_iff.mp hf
    exact hfull f' hf'
  · exact retired_new hlog rfl rfl
      fun f hf => by cases hf
  · refine retired_new hlog rfl rfl fun f hf => ?_
    obtain ⟨f', hf', rfl⟩ := Option.map_eq_some_iff.mp hf
    exact ⟨rfl, rfl⟩

theorem followAgent_spec (h : Typed a.log) :
    Retired (a.followAgent ans t f).1 ∨ (a.followAgent ans t f).1 = a := by
  unfold App.followAgent
  split
  · exact Or.inl (retired_of (typed_close (typed_note h (by simp))) rfl rfl rfl rfl rfl)
  · exact Or.inr rfl

theorem pumpTerminal_spec {events : List FullTerminalEvent} {due : Bool} (h : Held a)
    (he : Honest ans a events) : Retired (a.pumpTerminal ans events due) ∨
      a.pumpTerminal ans events due = a.pumpFullTerminal ans events := by
  have hb := held_pumpFullTerminal h he
  unfold App.pumpTerminal
  simp only
  split
  · exact Or.inr rfl
  rename_i t _
  split
  · exact Or.inr rfl
  rename_i f _
  have hc : Retired ((a.pumpFullTerminal ans events).followAgent ans t f).1 ∨
      ((a.pumpFullTerminal ans events).followAgent ans t f).1 = a.pumpFullTerminal ans events :=
    followAgent_spec hb.2
  split
  · refine Or.inl (retired_reopenTerminal ?_)
    rcases hc with hc | hc
    · exact hc.log
    · rw [hc]
      exact hb.2
  · exact hc

theorem held_startTyping (h : Held a) : Held (a.startTyping ans) := by
  unfold App.startTyping
  split
  · exact h
  rename_i t ht
  split
  · exact h
  split
  · exact held_beginFull h
  split
  · exact h
  · rename_i hfull _
    refine ⟨fun t' f hterm hf => ?_, h.2⟩
    obtain rfl := Option.some.inj hterm
    exact absurd (by rw [hf]; rfl) hfull

/-- Without full mode nothing is controlled or asked for. -/
theorem Held.retired (h : Held a) (hmode : a.fullMode = false) : Retired a := by
  refine ⟨h.2, fun t f ht hf => ?_⟩
  have hv := h.view ht hf
  have hexpanded : f.expanded = false := by
    rwa [App.fullMode, ht, Option.bind_some, hf, Option.any_some] at hmode
  refine ⟨?_, ?_, ?_⟩
  · rw [← Bool.not_eq_true]
    intro htyping
    exact absurd (hv.typing htyping).2.2.1 (by simp [hexpanded])
  · rw [← Option.not_isSome_iff_eq_none]
    intro howner
    exact absurd (hv.ready (Or.inl howner)).2 (by simp [hexpanded])
  · rw [← Option.not_isSome_iff_eq_none]
    intro hpending
    exact absurd (hv.ready (Or.inr hpending)).2 (by simp [hexpanded])

theorem retired_none (hl : Typed a.log) (ht : a.term = none) : Retired a :=
  ⟨hl, fun t f hterm => by cases ht.symm.trans hterm⟩

theorem stopTyping_spec (h : Typed a.log) :
    Retired (a.stopTyping ans) ∨ a.stopTyping ans = a := by
  unfold App.stopTyping
  split
  · exact Or.inr rfl
  · exact Or.inl (retired_reopenTerminal (typed_close h))

theorem retired_openTerminal {agent : String} (h : Retired a) :
    Retired (a.openTerminal ans agent) := by
  unfold App.openTerminal
  split <;> rename_i b hnew <;> obtain ⟨hlog, hterm, hfresh⟩ := newFullTerm_spec hnew h.log
  · exact retired_new hlog rfl (hfresh _ rfl).1 (hfresh _ rfl).2
  · exact ⟨hlog, fun t f ht hf => h.idle t f (hterm ▸ ht) hf⟩
  split
  · exact retired_new hlog rfl rfl fun f hf => by cases hf
  simp only
  split
  · rename_i hnone
    exact retired_none (typed_close hlog) hnone
  · exact retired_reopenTerminal (typed_close hlog)

theorem syncTerminal_spec {top : Option String} (h : Typed a.log) :
    Retired (a.syncTerminal ans top) ∨ a.syncTerminal ans top = a := by
  unfold App.syncTerminal
  split
  · exact Or.inl (retired_none (typed_close h) rfl)
  · split
    · exact Or.inr rfl
    · exact Or.inl (retired_reopenTerminal h)
  · exact Or.inl (retired_reopenTerminal h)
  · exact Or.inr rfl

theorem lost_spec (h : Typed a.log) : Retired a.lost ∨ a.lost = a := by
  unfold App.lost
  split
  · exact Or.inr rfl
  · exact Or.inl (retired_none (typed_close h) rfl)

end

end Agend.FullTerminal
