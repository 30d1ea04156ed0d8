import Agend.FullTerminal.Grant

/-! Typing is at the size of the window, and only after an Acquire of its own. -/
namespace Agend.FullTerminal

open Library

section

variable {t : Term} {f : FullView} {a b : App} {ans : Answers}

/-- While typing, the last frame has the size of the window. -/
def Fits (a : App) : Prop :=
  ∀ t f, a.term = some t → t.full = some f → t.typing = true →
    f.data.any (fun d => d.frame.size = a.fullSize) = true

/-- Where it still types, it types as before. -/
def Keeps (a b : App) : Prop :=
  b.outerSize = a.outerSize ∧ ∀ t f, b.term = some t → t.full = some f → t.typing = true →
    ∃ t' f', a.term = some t' ∧ t'.full = some f' ∧ t'.typing = true ∧ f'.data = f.data

theorem Keeps.refl : Keeps a a := ⟨rfl, fun t f ht hf htyping => ⟨t, f, ht, hf, htyping, rfl⟩⟩

theorem Fits.keeps (h : Fits a) (hk : Keeps a b) : Fits b := by
  intro t f ht hf htyping
  obtain ⟨t', f', ht', hf', htyping', hd⟩ := hk.2 t f ht hf htyping
  have hfits := h t' f' ht' hf' htyping'
  rwa [hd, App.fullSize, ← hk.1] at hfits

theorem Retired.fits (h : Retired b) : Fits b := by
  intro t f ht hf htyping
  cases (h.idle t f ht hf).1.symm.trans htyping

theorem Retired.keeps (h : Retired b) (ho : b.outerSize = a.outerSize) : Keeps a b := by
  refine ⟨ho, fun t f ht hf htyping => ?_⟩
  cases (h.idle t f ht hf).1.symm.trans htyping

theorem keeps_put {f' : FullView} (ha : a.term = some t) (hf : t.full = some f)
    (hd : f'.data = f.data) : Keeps a (a.put t f') := by
  refine ⟨rfl, fun t' f'' ht' hf' htyping => ?_⟩
  obtain rfl := Option.some.inj ht'
  obtain rfl := Option.some.inj hf'
  exact ⟨t, f, ha, hf, htyping, hd.symm⟩

theorem keeps_selectFullViewport {top : Option Nat} {rows : Nat} (hl : Typed a.log) :
    Keeps a (a.selectFullViewport ans top rows) := by
  rcases ht : a.term with _ | t
  · simpa only [App.selectFullViewport, ht] using Keeps.refl
  rcases hf : t.full with _ | f
  · simpa only [App.selectFullViewport, ht, hf] using Keeps.refl
  simp only [App.selectFullViewport, ht, hf]
  split
  · exact .refl
  split
  · exact .refl
  split
  · exact keeps_put ht hf rfl
  · exact (retired_fullSendError (a := a.put t f.count) hl).keeps rfl

theorem keeps_scrollTerminal {delta : Int} (hl : Typed a.log) :
    Keeps a (a.scrollTerminal ans delta) := by
  unfold App.scrollTerminal
  split
  · exact .refl
  · split
    · exact .refl
    · split
      · exact .refl
      · exact keeps_selectFullViewport hl

theorem keeps_sendFullBytes {bytes : List UInt8} (hl : Typed a.log) :
    Keeps a (a.sendFullBytes ans bytes) := by
  rcases ht : a.term with _ | t
  · simpa only [App.sendFullBytes, ht, ite_self] using Keeps.refl
  rcases hf : t.full with _ | f
  · simpa only [App.sendFullBytes, ht, hf, ite_self] using Keeps.refl
  simp only [App.sendFullBytes, ht, hf]
  split_ifs
  · exact .refl
  · exact .refl
  · exact .refl
  split
  · split
    · exact keeps_put ht hf rfl
    · exact keeps_put ht hf rfl
    · exact (retired_fullSendError (a := a.put t f.count) hl).keeps rfl
  · exact .refl

theorem fits_put {t' : Term} {f' : FullView} (h : t'.typing = true →
    f'.data.any (fun d => d.frame.size = a.fullSize) = true) : Fits (a.put t' f') := by
  intro t'' f'' ht hf htyping
  obtain rfl := Option.some.inj ht
  obtain rfl := Option.some.inj hf
  exact h htyping

theorem fits_fullSendError (hl : Typed a.log) : Fits a.fullSendError :=
  (retired_fullSendError hl).fits

theorem fits_beginFull (h : Held a) (hfits : Fits a) : Fits (a.beginFull ans) := by
  rcases ht : a.term with _ | t
  · simpa only [App.beginFull, ht] using hfits
  rcases hf : t.full with _ | f
  · simp only [App.beginFull, ht, hf]
    split_ifs <;> exact hfits
  simp only [App.beginFull, ht, hf]
  split_ifs
  · exact hfits
  · exact hfits
  · exact hfits
  split
  · exact fits_put fun htyping => by cases htyping
  · exact fits_fullSendError h.2

/-- The window follows its size: it has a frame of that size, or it does not type. -/
theorem fits_resizeFull (h : Held a) : Fits (a.resizeFull ans) := by
  rcases ht : a.term with _ | t
  · simp only [App.resizeFull, ht]
    exact fun t f hterm => by cases ht.symm.trans hterm
  have hsame : (∀ f, t.full = some f → t.typing = true →
      f.data.any (fun d => d.frame.size = a.fullSize) = true) → Fits a := by
    intro hfits t' f ht' hf htyping
    obtain rfl := Option.some.inj (ht.symm.trans ht')
    exact hfits f hf htyping
  rcases hf : t.full with _ | f
  · simp only [App.resizeFull, ht, hf]
    split_ifs <;> exact hsame fun f hfull => by cases hf.symm.trans hfull
  have hv := h.view ht hf
  have hidle : t.typing = false → Fits a := fun hn => hsame fun _ _ htyping => by
    cases hn.symm.trans htyping
  simp only [App.resizeFull, ht, hf]
  split
  · rename_i hmode
    exact hsame fun _ _ htyping => absurd (hv.typing htyping).2.2.2 hmode
  split
  · rename_i hready
    exact hsame fun _ _ htyping => absurd (hv.ready (Or.inl (hv.typing htyping).1)).1 (by simp [hready])
  split
  · split
    · rename_i hfits
      refine hsame fun f' hf' _ => ?_
      obtain rfl := Option.some.inj (hf.symm.trans hf')
      exact hfits.2
    split
    · exact fits_put fun htyping => by cases htyping
    split
    · split
      · exact fits_put fun htyping => by cases htyping
      · exact fits_fullSendError h.2
    · exact fits_put fun htyping => by cases htyping
  · rename_i hexpanded
    have hn : t.typing = false := by
      rw [← Bool.not_eq_true]
      exact fun htyping => hexpanded (hv.typing htyping).2.2.1
    have hb : Fits (a.put t (a.followed f)) := fits_put fun htyping => by cases hn.symm.trans htyping
    split_ifs
    · exact hb.keeps (keeps_selectFullViewport h.2)
    · exact hb
    · exact hb.keeps (keeps_selectFullViewport h.2)
    · exact hb

theorem held_resize {size : TerminalSize} (h : Held a ∧ Fits a) :
    Held (a.resize ans size) ∧ Fits (a.resize ans size) := by
  unfold App.resize
  split
  · exact h
  have hb : Held { a with outerSize := size } := h.1
  simp only
  split
  · exact ⟨held_resizeFull hb, fits_resizeFull hb⟩
  · rename_i hfull
    refine ⟨hb, fun t f ht hf => absurd ?_ hfull⟩
    rw [show a.term = some t from ht, Option.bind_some, hf]
    rfl

theorem fits_startTyping (h : Held a) (hfits : Fits a) : Fits (a.startTyping ans) := by
  unfold App.startTyping
  split
  · exact hfits
  split
  · exact hfits
  split
  · exact fits_beginFull h hfits
  split
  · exact hfits
  · rename_i hfull _
    intro t' f hterm hf
    obtain rfl := Option.some.inj hterm
    exact absurd (by rw [hf]; rfl) hfull

end

/-- The source delivers on an open connection only, and the hub answers a Resize honestly. -/
def Allowed (ans : Answers) (a : App) : Event → Prop
  | .pump events _ => (events ≠ [] → a.connected = true) ∧ Honest ans a events
  | _ => True

/-- The window, from its start, with whatever happens to it. -/
def window (size : TerminalSize) : Machine App (Answers × Event) Unit where
  init a := a = ⟨size, none, false, []⟩
  step a e a' _ := Allowed e.1 a e.2 ∧ a' = a.next e.1 e.2

section

variable {size : TerminalSize} {a : App} {ans : Answers}

theorem held_next {e : Event} (h : Held a ∧ Fits a) (he : Allowed ans a e) :
    Held (a.next ans e) ∧ Fits (a.next ans e) := by
  have hspec : ∀ {b}, Retired b ∨ b = a → Held b ∧ Fits b := by
    rintro b (hb | rfl)
    · exact ⟨hb.held, hb.fits⟩
    · exact h
  cases e with
  | resize size => exact held_resize h
  | type_ =>
    simp only [App.next]
    split
    · exact h
    · exact ⟨held_startTyping h.1, fits_startTyping h.1 h.2⟩
  | stopTyping =>
    simp only [App.next]
    split
    · exact hspec (stopTyping_spec h.1.2)
    · exact h
  | bytes bytes =>
    exact ⟨held_sendFullBytes h.1, h.2.keeps (keeps_sendFullBytes h.1.2)⟩
  | scroll delta =>
    exact ⟨held_scrollTerminal h.1, h.2.keeps (keeps_scrollTerminal h.1.2)⟩
  | pump events due =>
    rcases pumpTerminal_spec h.1 he.2 with hr | hr
    · exact ⟨hr.held, hr.fits⟩
    · simp only [App.next, hr]
      exact ⟨held_pumpFullTerminal h.1 he.2, fits_resizeFull (held_handles h.1 he.2)⟩
  | openTerminal agent =>
    simp only [App.next]
    split
    · exact h
    · rename_i hmode
      exact hspec (Or.inl (retired_openTerminal (h.1.retired (Bool.eq_false_iff.mpr hmode))))
  | sync top => exact hspec (syncTerminal_spec h.1.2)
  | lost => exact hspec (lost_spec h.1.2)

theorem held_of_reachable (hr : (window size).Reachable a) : Held a ∧ Fits a := by
  refine hr.invariant (P := fun a => Held a ∧ Fits a) ?_ ?_
  · rintro a rfl
    have hnone : Retired (⟨size, none, false, []⟩ : App) :=
      retired_none (fun newer _ _ _ _ he => by cases newer <;> cases he) rfl
    exact ⟨hnone.held, hnone.fits⟩
  · rintro a e _ _ h ⟨he, rfl⟩
    exact held_next h he

/-- What comes later than a mark is on its newer side. -/
theorem exists_of_split {α : Type*} {mid past between older : List α} {y x : α}
    (h : mid ++ y :: past = between ++ x :: older) (hx : x ∉ mid) (hne : y ≠ x) :
    ∃ r, between = mid ++ y :: r ∧ past = r ++ x :: older := by
  rcases List.append_eq_append_iff.mp h with ⟨r, hb, hr⟩ | ⟨r, hm, hr⟩
  · cases r with
    | nil => exact absurd (List.cons.inj hr).1 hne
    | cons z r =>
      obtain ⟨rfl, rfl⟩ := List.cons.inj hr
      exact ⟨r, hb, rfl⟩
  · cases r with
    | nil => exact absurd (List.cons.inj hr).1.symm hne
    | cons z r =>
      obtain ⟨rfl, -⟩ := List.cons.inj hr
      exact absurd (hm ▸ List.mem_append_right _ List.mem_cons_self) hx

/-- Between the mark and the input the user asked again, and was answered with a complete frame. -/
def AskedAgain (between : List Exchange) (attach viewId generation : String) : Prop :=
  ∃ newer mid past id frame, between =
      newer ++ .granted id attach viewId frame :: mid ++ .acquire id frame.size :: past ∧
    frame.generation = generation ∧ frame.cells.length = frame.size.rows

/-- Between the mark and the input an Acquire was answered with a complete frame: a new one, or the
one that was open at the mark. -/
def Answered (between older : List Exchange) (attach viewId generation : String) : Prop :=
  ∃ newer past id frame, between = newer ++ .granted id attach viewId frame :: past ∧
    frame.generation = generation ∧ frame.cells.length = frame.size.rows ∧
    (.acquire id frame.size ∈ past ∨ Asked older id frame.size)

theorem Granted.asked_again {between older : List Exchange} {x : Exchange}
    {attach viewId generation : String}
    (h : Granted (between ++ x :: older) attach viewId generation) (hx : x.ends = true) :
    AskedAgain between attach viewId generation := by
  obtain ⟨mid, id, _, frame, past, he, hgen, rfl, hcells, ⟨mid', past', hpast, hmid'⟩, hmid⟩ := h
  have hne : ∀ y : Exchange, y.ends = false → y ≠ x := by
    rintro y hy rfl
    cases hx.symm.trans hy
  obtain ⟨r, hbetween, hr⟩ := exists_of_split he.symm
    (fun hmem => hne x (hmid x hmem).1 rfl) (hne _ rfl)
  obtain ⟨r', hr', -⟩ := exists_of_split (hpast.symm.trans hr)
    (fun hmem => hne x (hmid' x hmem).1 rfl) (hne _ rfl)
  exact ⟨mid, mid', r', id, frame, by rw [hbetween, hr', List.append_assoc, List.cons_append], hgen,
    hcells⟩

theorem Granted.answered {between older : List Exchange} {attach viewId generation : String}
    (h : Granted (between ++ .readOnly :: older) attach viewId generation) :
    Answered between older attach viewId generation := by
  obtain ⟨mid, id, _, frame, past, he, hgen, rfl, hcells, ⟨mid', past', hpast, hmid'⟩, hmid⟩ := h
  obtain ⟨r, hbetween, hr⟩ := exists_of_split he.symm
    (fun hmem => (hmid _ hmem).2.1 rfl) (by simp)
  refine ⟨mid, r, id, frame, hbetween, hgen, hcells, ?_⟩
  rcases List.append_eq_append_iff.mp (hpast.symm.trans hr) with ⟨m, hm, hm'⟩ | ⟨m, hm, hm'⟩
  · cases m with
    | nil => cases (List.cons.inj hm').1
    | cons z m =>
      obtain ⟨rfl, -⟩ := List.cons.inj hm'
      exact Or.inl (hm ▸ List.mem_append_right _ List.mem_cons_self)
  · cases m with
    | nil => cases (List.cons.inj hm').1
    | cons z m =>
      obtain ⟨-, rfl⟩ := List.cons.inj hm'
      refine Or.inr ⟨m, past', rfl, fun y hy => hmid' y ?_⟩
      exact hm ▸ List.mem_append_right _ (List.mem_cons_of_mem _ hy)

/-- A full terminal types at the size of the window, with control and nothing open. Each input is
under the last grant of the connection. After control was lost to another window no input is sent
before an Acquire is answered, a new one or the one that was open; after anything else that ends
a grant, not before the user asks again and is answered. -/
theorem types_under_own_grant (hr : (window size).Reachable a) :
    (∀ t f, a.term = some t → t.full = some f → t.typing = true →
      f.owner.isSome = true ∧ f.pending = none ∧ f.expanded = true ∧ t.mode = .live ∧
        f.data.any (fun d => d.frame.size = a.fullSize) = true) ∧
    (∀ newer older attach viewId generation,
      a.log = newer ++ .input attach viewId generation :: older →
        Granted older attach viewId generation) ∧
    (∀ newer between older x attach viewId generation,
      a.log = newer ++ .input attach viewId generation :: (between ++ x :: older) →
        x.ends = true → AskedAgain between attach viewId generation) ∧
    ∀ newer between older attach viewId generation,
      a.log = newer ++ .input attach viewId generation :: (between ++ .readOnly :: older) →
        Answered between older attach viewId generation := by
  obtain ⟨hheld, hfits⟩ := held_of_reachable hr
  refine ⟨fun t f ht hf htyping => ?_, hheld.2, ?_, ?_⟩
  · obtain ⟨howner, hpending, hexpanded, hmode⟩ := (hheld.view ht hf).typing htyping
    exact ⟨howner, hpending, hexpanded, hmode, hfits t f ht hf htyping⟩
  · intro newer between older x attach viewId generation he hx
    exact (hheld.2 newer _ attach viewId generation he).asked_again hx
  · intro newer between older attach viewId generation he
    exact (hheld.2 newer _ attach viewId generation he).answered

end

theorem reachable_next {size : TerminalSize} {a : App} {ans : Answers} {e : Event}
    (hr : (window size).Reachable a) (he : Allowed ans a e) :
    (window size).Reachable (a.next ans e) := by
  obtain ⟨h, hr⟩ := hr
  exact ⟨_, .snoc (e := (ans, e)) (o := ()) hr ⟨he, rfl⟩⟩

/-- A window of one row whose user asks to type, loses control and is answered. -/
def answering : Answers :=
  ⟨fun _ => .ok (), fun _ => .ok (), .ok true, .ok (), false, false⟩

def row : TerminalFrame := ⟨"g", 0, ⟨1, 10⟩, false, 0, 0, 0, false, [true], some 0⟩

def opened : App := App.next ⟨⟨2, 10⟩, none, false, []⟩ answering (.openTerminal "a")

def asking : App :=
  (opened.next answering (.pump [.frame ⟨"tui-view", "a", "v", row⟩] false)).next answering .type_

def taken : FullTerminalEvent := .controlChanged "v" "g" .readOnly

def answered : FullTerminalEvent :=
  .controlAck ⟨"tui-terminal-2", "a", "v", "g", .controlled "c", some row⟩

def typed : App :=
  (asking.next answering (.pump [taken, answered] false)).next answering (.bytes [97])

theorem typed_log : typed.log = [] ++ .input "c" "v" "g" ::
    ([.granted "tui-terminal-2" "c" "v" row] ++ .readOnly ::
      [.acquire "tui-terminal-2" ⟨1, 10⟩, .opened, .closed]) := by
  decide +kernel

theorem typed_reachable : (window ⟨2, 10⟩).Reachable typed := by
  have hopened : (window ⟨2, 10⟩).Reachable opened := reachable_next ⟨_, .start rfl⟩ trivial
  have hconnected : opened.connected = true := by decide +kernel
  have hasking : (window ⟨2, 10⟩).Reachable asking :=
    reachable_next (reachable_next hopened ⟨fun _ => hconnected, trivial, trivial⟩) trivial
  have hasked : asking.connected = true := by decide +kernel
  have hsent : sentResize "tui-terminal-2" (asking.handle answering taken).log = none := by
    decide +kernel
  refine reachable_next (reachable_next hasking ⟨fun _ => hasked, trivial, ?_, trivial⟩) trivial
  intro attach acked h
  cases hsent.symm.trans h

/-- The Acquire that was open when control was lost is enough. -/
theorem typed_without_asking_again : ∃ a, (window ⟨2, 10⟩).Reachable a ∧
    ∃ newer between older attach viewId generation,
      a.log = newer ++ .input attach viewId generation :: (between ++ .readOnly :: older) ∧
        ∀ id size, .acquire id size ∉ between :=
  ⟨typed, typed_reachable, _, _, _, _, _, _, typed_log, by simp⟩

theorem types_under_own_grant_typed : Granted (.granted "tui-terminal-2" "c" "v" row :: .readOnly ::
    [.acquire "tui-terminal-2" ⟨1, 10⟩, .opened, .closed]) "c" "v" "g" :=
  (types_under_own_grant typed_reachable).2.1 _ _ _ _ _ typed_log

end Agend.FullTerminal
