import Mathlib.Data.List.Nodup
import Agend.Connection.Exchange

/-! A request is executed once, and its call returns what was answered to it. -/
namespace Agend.Connection

open Library

section

variable {ρ ε : Type} [DecidableEq ρ]

/-- What is on a connection: whole lines of requests, then pieces of lines, and lines back that
name the request that they answer. -/
structure LinkOk (w : Wire ρ) (l : Link ρ ε) : Prop where
  torn : ∃ pieces : List (List UInt8), (∀ p ∈ pieces, w.Piece p) ∧
    (cutLines newline l.partial_ l.up).2 = pieces.flatten
  counts : ∀ r, l.executed.count r +
    ((cutLines newline l.partial_ l.up).1.filterMap w.decode).count r ≤ l.written.count r
  answered : ∀ x ∈ l.down, ∀ r, x.answers = some r → r ∈ l.executed ∧
    ∀ response, x.response = some response → response.requestId = some (w.requestId r)
  plain : ∀ x ∈ l.down, x.answers = none →
    ∀ response, x.response = some response → response.requestId = none

variable {w : Wire ρ} {l l' : Link ρ ε}

theorem linkOk_fresh : LinkOk w (.fresh : Link ρ ε) where
  torn := ⟨[], by simp, rfl⟩
  counts _ := Nat.le_refl _
  answered _ hx := absurd hx List.not_mem_nil
  plain _ hx := absurd hx List.not_mem_nil

/-- The lines to come count for nothing else; a shorter way down keeps what holds of its lines. -/
theorem LinkOk.shorter (h : LinkOk w l) {down : List (Line ρ ε)} (hdown : down ⊆ l.down) :
    LinkOk w { l with down := down } :=
  ⟨h.torn, h.counts, fun x hx => h.answered x (hdown hx), fun x hx => h.plain x (hdown hx)⟩

theorem LinkOk.stopped (h : LinkOk w l) : LinkOk w { l with serving := false } :=
  ⟨h.torn, h.counts, h.answered, h.plain⟩

theorem LinkOk.push (h : LinkOk w l) {response : Response ε} {answers : Option ρ}
    (hanswers : ∀ r, answers = some r →
      r ∈ l.executed ∧ response.requestId = some (w.requestId r))
    (hplain : answers = none → response.requestId = none) :
    LinkOk w (l.push response answers) := by
  refine ⟨h.torn, h.counts, fun x hx r hr => ?_, fun x hx hnone => ?_⟩
  · rcases List.mem_append.mp hx with hold | hnew
    · exact h.answered x hold r hr
    · cases List.mem_singleton.mp hnew
      refine ⟨(hanswers r hr).1, fun response' heq => ?_⟩
      cases heq
      exact (hanswers r hr).2
  · rcases List.mem_append.mp hx with hold | hnew
    · exact h.plain x hold hnone
    · cases List.mem_singleton.mp hnew
      intro response' heq
      cases heq
      exact hplain hnone

theorem LinkOk.pushPlain (h : LinkOk w l) {response : Response ε}
    (hplain : response.requestId = none) : LinkOk w (l.push response none) :=
  h.push (fun _ hr => by cases hr) fun _ => hplain

/-- A line that was read is executed, answered with an error, or nothing. -/
theorem LinkOk.handle (h : LinkOk w l) {text up : List UInt8}
    (hcut : cutLines newline l.partial_ l.up =
      (text :: (cutLines newline [] up).1, (cutLines newline [] up).2)) :
    LinkOk w ({ l with up := up, partial_ := [] }.handle w text) := by
  have htorn := h.torn
  have hcounts := h.counts
  rw [hcut] at htorn hcounts
  have hread : LinkOk w { l with up := up, partial_ := [] } := by
    refine ⟨htorn, fun r => ?_, h.answered, h.plain⟩
    have hr := hcounts r
    rw [List.filterMap_cons] at hr
    split at hr
    · exact hr
    · rw [List.count_cons] at hr
      exact Nat.le_trans (Nat.add_le_add_left (Nat.le_add_right _ _) _) hr
  unfold Link.handle
  split
  · exact hread
  · split
    · exact hread.pushPlain rfl
    case h_2 r hdecode =>
      refine ⟨htorn, fun r' => ?_, fun x hx r' hr' => ?_, h.plain⟩
      · have hr := hcounts r'
        rw [List.filterMap_cons, hdecode, List.count_cons] at hr
        simp only [List.count_append, List.count_cons, List.count_nil] at hr ⊢
        omega
      · obtain ⟨hmem, hid⟩ := h.answered x hx r' hr'
        exact ⟨List.mem_append_left _ hmem, hid⟩

theorem LinkOk.fill (h : LinkOk w l) (n : Nat) : LinkOk w (l.fill w n) := by
  have hup : l.up = l.up.take n ++ l.up.drop n := (List.take_append_drop n l.up).symm
  simp only [Link.fill]
  split
  case h_1 end_ hfound =>
    split
    · exact (h.pushPlain rfl).stopped
    · obtain ⟨hnot, hsplit⟩ := split_of_findIdx? hfound
      obtain ⟨hlt, -⟩ := List.findIdx?_eq_some_iff_getElem.mp hfound
      have hdrop : l.up.drop (end_ + 1) = (l.up.take n).drop (end_ + 1) ++ l.up.drop n := by
        conv_lhs => rw [hup]
        exact List.drop_append_of_le_length hlt
      have hwhole : l.up = (l.up.take n).take end_ ++ newline :: l.up.drop (end_ + 1) := by
        conv_lhs => rw [hup, hsplit]
        rw [hdrop, List.append_assoc, List.cons_append]
      refine h.handle ?_
      conv_lhs => rw [hwhole]
      exact cutLines_line hnot
  case h_2 hnone =>
    split
    · exact (h.pushPlain rfl).stopped
    · have hnot := not_mem_of_findIdx? hnone
      have hdrop : l.up.drop (l.up.take n).length = l.up.drop n := by
        rw [List.length_take]
        rcases Nat.le_total n l.up.length with hle | hle
        · rw [Nat.min_eq_left hle]
        · rw [Nat.min_eq_right hle, List.drop_length, List.drop_eq_nil_of_le hle]
      have hcut : cutLines newline l.partial_ l.up =
          cutLines newline (l.partial_ ++ l.up.take n) (l.up.drop (l.up.take n).length) := by
        conv_lhs => rw [hup]
        rw [cutLines_append, cutLines_of_not_mem hnot, hdrop]
        rfl
      have htorn := h.torn
      have hcounts := h.counts
      rw [hcut] at htorn hcounts
      exact ⟨htorn, hcounts, h.answered, h.plain⟩

omit [DecidableEq ρ] in
theorem handle_written (text : List UInt8) : (l.handle w text).written = l.written := by
  unfold Link.handle
  split
  · rfl
  · split <;> rfl

omit [DecidableEq ρ] in
theorem fill_written (n : Nat) : (l.fill w n).written = l.written := by
  simp only [Link.fill]
  split
  · split
    · rfl
    · exact handle_written _
  · split <;> rfl

theorem LinkOk.step (h : LinkOk w l) {e : DaemonEvent ρ ε} (hs : l.step w e = some l') :
    LinkOk w l' ∧ l'.written = l.written := by
  cases e with
  | fill n =>
    simp only [Link.step] at hs
    split at hs
    · cases hs
      exact ⟨h.fill n, fill_written n⟩
    · cases hs
  | answer r response =>
    simp only [Link.step] at hs
    split at hs
    case isTrue hr =>
      cases hs
      refine ⟨h.push (fun r' heq => ?_) (fun hnone => by cases hnone), rfl⟩
      cases heq
      exact hr
    case isFalse => cases hs
  | send response =>
    simp only [Link.step] at hs
    split at hs
    case isTrue hplain =>
      cases hs
      exact ⟨h.pushPlain hplain, rfl⟩
    case isFalse => cases hs
  | close =>
    cases hs
    exact ⟨h.stopped, rfl⟩

/-- A write that fails leaves a piece of a line. -/
theorem LinkOk.writeFails (h : LinkOk w l) (hw : w.Lawful) (r : ρ) {n : Nat}
    (hn : n < (line w r).length) : LinkOk w { l with up := l.up ++ (line w r).take n } := by
  have htake : (line w r).take n = (w.encode r).take n := by
    rw [line, List.length_append, List.length_singleton] at hn
    exact List.take_append_of_le_length (Nat.le_of_lt_succ hn)
  have hpiece : w.Piece ((line w r).take n) := ⟨r, htake ▸ List.take_prefix n _⟩
  have hnot : newline ∉ (line w r).take n := by
    rw [htake]
    exact fun hmem => hw.oneLine r (List.mem_of_mem_take hmem)
  have hcut : cutLines newline l.partial_ (l.up ++ (line w r).take n) = _ :=
    cutLines_append_of_not_mem hnot
  obtain ⟨pieces, hpieces, hrest⟩ := h.torn
  refine ⟨⟨pieces ++ [(line w r).take n], fun p hp => ?_, ?_⟩, fun r' => ?_, h.answered, h.plain⟩
  · rcases List.mem_append.mp hp with hold | hnew
    · exact hpieces p hold
    · rw [List.mem_singleton.mp hnew]
      exact hpiece
  · rw [hcut, hrest, List.flatten_append, List.flatten_singleton]
  · rw [hcut]
    exact h.counts r'

/-- A whole line is this request where nothing stands before it, and no request otherwise. -/
theorem LinkOk.writeAll (h : LinkOk w l) (hw : w.Lawful) (r : ρ) :
    LinkOk w { l with up := l.up ++ line w r, written := l.written ++ [r] } := by
  have hcut : cutLines newline l.partial_ (l.up ++ line w r) = _ :=
    cutLines_append_line (hw.oneLine r)
  obtain ⟨pieces, hpieces, hrest⟩ := h.torn
  have hdecode : w.decode ((cutLines newline l.partial_ l.up).2 ++ w.encode r) = none ∨
      w.decode ((cutLines newline l.partial_ l.up).2 ++ w.encode r) = some r := by
    rw [hrest]
    by_cases hnil : pieces.flatten = []
    · rw [hnil, List.nil_append]
      exact .inr (hw.readBack r)
    · exact .inl (hw.torn pieces r hpieces hnil)
  refine ⟨⟨[], by simp, by rw [hcut]; rfl⟩, fun r' => ?_, h.answered, h.plain⟩
  have hold := h.counts r'
  rw [hcut]
  simp only [List.filterMap_append, List.count_append, List.filterMap_cons, List.filterMap_nil]
  rcases hdecode with hnone | hsome
  · rw [hnone]
    simp only [List.count_nil]
    omega
  · rw [hsome]
    dsimp only
    omega

namespace World

def links (s : World ρ ε) : List (Link ρ ε) := s.link :: s.left

/-- What the daemon has executed, over all connections. -/
def executed (s : World ρ ε) : List ρ := s.links.flatMap Link.executed

/-- The requests whose whole line was written, once for each time. -/
def written (s : World ρ ε) : List ρ := s.links.flatMap Link.written

end World

def Line.event? (x : Line ρ ε) : Option ε :=
  match x.response with
  | some (.event data) => some data
  | _ => none

/-- What the stage says of the request under way. -/
def StageOk (s : World ρ ε) : Prop :=
  match s.stage with
  | .writing r redo | .reconnecting r redo =>
    (r, redo) ∈ s.called ∧ (redo = .never → r ∉ s.written) ∧ ∀ x ∈ s.linesRead, x.answers ≠ some r
  | .waiting r redo =>
    (r, redo) ∈ s.called ∧ r ∈ s.link.written ∧ ∀ x ∈ s.linesRead, x.answers ≠ some r
  | .idle => True
  | .nextEvent => s.events = []

structure WorldOk (w : Wire ρ) (s : World ρ ε) : Prop where
  links : ∀ l ∈ s.links, LinkOk w l
  once : ∀ r, (r, .never) ∈ s.called → s.written.count r ≤ 1
  known : ∀ r ∈ s.written, ∃ redo, (r, redo) ∈ s.called
  ids : (s.ids w).Nodup
  stage : StageOk s
  read : ∀ x ∈ s.linesRead, ∀ r, x.answers = some r → r ∈ s.written
  events : s.eventsReturned ++ s.events = s.linesRead.filterMap Line.event?

variable {s s' : World ρ ε}

theorem count_flatMap_le {links : List (Link ρ ε)} (h : ∀ l ∈ links, LinkOk w l) (r : ρ) :
    (links.flatMap Link.executed).count r ≤ (links.flatMap Link.written).count r := by
  induction links with
  | nil => exact Nat.le_refl _
  | cons l links ih =>
    have hl := (h l List.mem_cons_self).counts r
    have hrest := ih fun l hl => h l (List.mem_cons_of_mem _ hl)
    simp only [List.flatMap_cons, List.count_append]
    omega

theorem WorldOk.executed_le (h : WorldOk w s) (r : ρ) : s.executed.count r ≤ s.written.count r :=
  count_flatMap_le h.links r

theorem mem_written_of_executed (h : WorldOk w s) {l : Link ρ ε} (hl : l ∈ s.links) {r : ρ}
    (hr : r ∈ l.executed) : r ∈ s.written := by
  have hpos : 0 < l.executed.count r := List.count_pos_iff.mpr hr
  have hle := (h.links l hl).counts r
  have hw : r ∈ l.written := List.count_pos_iff.mp (by omega)
  exact List.mem_flatMap.mpr ⟨l, hl, hw⟩

/-- Two requests of the client with one id are one request, sent with one `Redo`. -/
theorem eq_of_requestId (h : WorldOk w s) {c c' : ρ × Redo} (hc : c ∈ s.called)
    (hc' : c' ∈ s.called) (hid : w.requestId c.1 = w.requestId c'.1) : c = c' :=
  List.inj_on_of_nodup_map h.ids hc hc' hid

theorem WorldOk.enter (h : WorldOk w s) {stage : ClientStage ρ}
    (hstage : StageOk (s.enter stage)) : WorldOk w (s.enter stage) :=
  ⟨h.links, h.once, h.known, h.ids, hstage, h.read, h.events⟩

theorem worldOk_start : WorldOk w (start : World ρ ε) where
  links l hl := by
    cases List.mem_singleton.mp hl
    exact linkOk_fresh
  once _ hr := absurd hr List.not_mem_nil
  known _ hr := absurd hr List.not_mem_nil
  ids := List.nodup_nil
  stage := trivial
  read _ hx := absurd hx List.not_mem_nil
  events := rfl

theorem WorldOk.call (h : WorldOk w s) {r : ρ} {redo : Redo} (hfresh : w.requestId r ∉ s.ids w) :
    WorldOk w { s with stage := .writing r redo, called := (r, redo) :: s.called } := by
  have hunknown : r ∉ s.written := by
    intro hr
    obtain ⟨redo', hmem⟩ := h.known r hr
    exact hfresh (List.mem_map.mpr ⟨_, hmem, rfl⟩)
  refine ⟨h.links, fun r' hr' => ?_, fun r' hr' => ?_, List.nodup_cons.mpr ⟨hfresh, h.ids⟩,
    ⟨List.mem_cons_self, fun _ => hunknown, fun x hx hr => hunknown (h.read x hx r hr)⟩, h.read,
    h.events⟩
  · rcases List.mem_cons.mp hr' with heq | hold
    · cases heq
      exact Nat.le_trans (Nat.le_of_eq (List.count_eq_zero.mpr hunknown)) (Nat.zero_le 1)
    · exact h.once r' hold
  · obtain ⟨redo', hmem⟩ := h.known r' hr'
    exact ⟨redo', List.mem_cons_of_mem _ hmem⟩

/-- Another connection in the place of the client's own, which was written to no other way. -/
theorem WorldOk.relink (h : WorldOk w s) {l' : Link ρ ε} (hl : LinkOk w l')
    (hwritten : l'.written = s.link.written) : WorldOk w { s with link := l' } := by
  have hall : ({ s with link := l' } : World ρ ε).written = s.written := by
    simp only [World.written, World.links, List.flatMap_cons, hwritten]
  refine ⟨fun l hmem => ?_, fun r hr => ?_, fun r hr => ?_, h.ids, ?_, fun x hx r hr => ?_,
    h.events⟩
  · rcases List.mem_cons.mp hmem with rfl | hleft
    · exact hl
    · exact h.links l (List.mem_cons_of_mem _ hleft)
  · rw [hall]
    exact h.once r hr
  · rw [hall] at hr
    exact h.known r hr
  · have hstage := h.stage
    unfold StageOk at hstage ⊢
    rw [hall]
    split at hstage <;> simp_all
  · rw [hall]
    exact h.read x hx r hr

theorem WorldOk.writeAll (h : WorldOk w s) (hw : w.Lawful) {r : ρ} {redo : Redo}
    (hstage : s.stage = .writing r redo) :
    WorldOk w { s with
      stage := .waiting r redo
      link := { s.link with up := s.link.up ++ line w r, written := s.link.written ++ [r] } } := by
  have hok := h.stage
  simp only [StageOk, hstage] at hok
  obtain ⟨hcalled, hnever, hread⟩ := hok
  refine ⟨fun l hmem => ?_, fun r' hr' => ?_, fun r' hr' => ?_, h.ids,
    ⟨hcalled, List.mem_append_right _ (List.mem_singleton.mpr rfl), hread⟩, fun x hx r' hr' => ?_,
    h.events⟩
  · rcases List.mem_cons.mp hmem with rfl | hleft
    · exact (h.links s.link List.mem_cons_self).writeAll hw r
    · exact h.links l (List.mem_cons_of_mem _ hleft)
  · have hold := h.once r' hr'
    simp only [World.written, World.links, List.flatMap_cons, List.count_append] at hold ⊢
    by_cases heq : r = r'
    · subst heq
      have hredo := congrArg Prod.snd (eq_of_requestId h hcalled hr' rfl)
      have hzero := List.count_eq_zero.mpr (hnever hredo)
      simp only [World.written, World.links, List.flatMap_cons, List.count_append] at hzero
      rw [List.count_singleton_self]
      omega
    · rw [List.count_singleton, if_neg (by simpa using heq)]
      omega
  · simp only [World.written, World.links, List.flatMap_cons, List.append_assoc, List.mem_append,
      List.mem_singleton] at hr'
    rcases hr' with hold | rfl | hold
    · exact h.known r' (List.mem_append_left _ hold)
    · exact ⟨redo, hcalled⟩
    · exact h.known r' (List.mem_append_right _ hold)
  · have hmem := h.read x hx r' hr'
    simp only [World.written, World.links, List.flatMap_cons, List.append_assoc,
      List.mem_append] at hmem ⊢
    exact hmem.imp_right .inr

theorem WorldOk.reopened (h : WorldOk w s) {r : ρ} {redo : Redo}
    (hstage : s.stage = .reconnecting r redo) :
    WorldOk w { s with stage := .writing r redo, left := s.link :: s.left, link := .fresh } := by
  have hok := h.stage
  simp only [StageOk, hstage] at hok
  refine ⟨fun l hmem => ?_, h.once, h.known, h.ids, hok, h.read, h.events⟩
  rcases List.mem_cons.mp hmem with rfl | hold
  · exact linkOk_fresh
  · exact h.links l hold

/-- A line that was read, and what the client did with it. -/
theorem WorldOk.reading (h : WorldOk w s) {x : Line ρ ε} {down : List (Line ρ ε)}
    (hdown : s.link.down = x :: down) {events returned : List ε} {stage : ClientStage ρ}
    (hevents : returned ++ events = s.eventsReturned ++ s.events ++ x.event?.toList)
    (hstage : StageOk { s with
      stage := stage, link := { s.link with down := down }, events := events
      linesRead := s.linesRead ++ [x], eventsReturned := returned }) :
    WorldOk w { s with
      stage := stage, link := { s.link with down := down }, events := events
      linesRead := s.linesRead ++ [x], eventsReturned := returned } := by
  have hlink := h.links s.link List.mem_cons_self
  refine ⟨fun l hmem => ?_, h.once, h.known, h.ids, hstage, fun y hy r hr => ?_, ?_⟩
  · rcases List.mem_cons.mp hmem with rfl | hleft
    · exact hlink.shorter (hdown ▸ List.subset_cons_self x down)
    · exact h.links l (List.mem_cons_of_mem _ hleft)
  · rcases List.mem_append.mp hy with hold | hnew
    · exact h.read y hold r hr
    · cases List.mem_singleton.mp hnew
      have hmem : x ∈ s.link.down := hdown ▸ List.mem_cons_self
      exact mem_written_of_executed h List.mem_cons_self (hlink.answered x hmem r hr).1
  · rw [hevents, h.events, List.filterMap_append]
    cases hx : x.event? <;> simp [hx]

theorem flatMap_set {α β : Type*} {l : List α} {f : α → List β} {k : Nat} {a b : α}
    (ha : l[k]? = some a) (hf : f b = f a) : (l.set k b).flatMap f = l.flatMap f := by
  induction l generalizing k with
  | nil => rfl
  | cons c l ih =>
    cases k with
    | zero =>
      cases ha
      simp [hf]
    | succ k => simp [ih ha]

theorem WorldOk.daemon (h : WorldOk w s) {left : Option Nat} {e : DaemonEvent ρ ε}
    (hs : s.daemon w left e = some s') : WorldOk w s' := by
  unfold World.daemon at hs
  split at hs
  case h_1 =>
    obtain ⟨l', hl, rfl⟩ := Option.map_eq_some_iff.mp hs
    obtain ⟨hok, hwritten⟩ := (h.links s.link List.mem_cons_self).step hl
    exact h.relink hok hwritten
  case h_2 k =>
    split at hs
    case h_1 => cases hs
    case h_2 l hk =>
      obtain ⟨l', hl, rfl⟩ := Option.map_eq_some_iff.mp hs
      have hmem : l ∈ s.left := List.mem_of_getElem? hk
      obtain ⟨hok, hwritten⟩ := (h.links l (List.mem_cons_of_mem _ hmem)).step hl
      have hall : ({ s with left := s.left.set k l' } : World ρ ε).written = s.written := by
        simp only [World.written, World.links, List.flatMap_cons, flatMap_set hk hwritten]
      refine ⟨fun y hy => ?_, fun r hr => ?_, fun r hr => ?_, h.ids, ?_, fun x hx r hr => ?_,
        h.events⟩
      · rcases List.mem_cons.mp hy with rfl | hleft
        · exact h.links _ List.mem_cons_self
        · rcases List.mem_or_eq_of_mem_set hleft with hold | rfl
          · exact h.links y (List.mem_cons_of_mem _ hold)
          · exact hok
      · rw [hall]
        exact h.once r hr
      · rw [hall] at hr
        exact h.known r hr
      · have hstage := h.stage
        unfold StageOk at hstage ⊢
        rw [hall]
        exact hstage
      · rw [hall]
        exact h.read x hx r hr

/-- What a returned value rests on: a line that answers this request, or an error line that answers
none; a whole line written, and nothing read that answers it. -/
structure ReturnedOk (w : Wire ρ) (s s' : World ρ ε) (ret : Returned ρ ε) : Prop where
  reply : ∀ response, ret.outcome = .reply response → ∃ x ∈ s.link.down, ret.line = some x ∧
    x.response = some response ∧ x.answers = some ret.request ∧ ret.request ∈ s.link.executed
  daemon : ∀ code message, ret.outcome = .failed (.daemon code message) → ∃ x, ret.line = some x ∧
    (x ∈ s.link.down ∧ x.answers = some ret.request ∧ ret.request ∈ s.link.executed ∧
        x.response = some (.error (some (w.requestId ret.request)) code message) ∨
      x.answers = none ∧ x.response = some (.error none code message))
  restarted : ret.outcome = .failed .restarted → ret.request ∈ s.link.written ∧
    ∀ x ∈ s'.linesRead, x.answers ≠ some ret.request

/-- A line with the id of the request under way was sent as its answer. -/
theorem answers_of_requestId (h : WorldOk w s) {r : ρ} {redo : Redo} {x : Line ρ ε}
    (hcalled : (r, redo) ∈ s.called) (hx : x ∈ s.link.down) {response : Response ε}
    (hresponse : x.response = some response)
    (hid : response.requestId = some (w.requestId r)) :
    x.answers = some r ∧ r ∈ s.link.executed := by
  have hlink := h.links s.link List.mem_cons_self
  cases ha : x.answers with
  | none =>
    have hnone := hlink.plain x hx ha response hresponse
    rw [hid] at hnone
    cases hnone
  | some r' =>
    obtain ⟨hexecuted, hid'⟩ := hlink.answered x hx r' ha
    have heq := (hid' response hresponse).symm.trans hid
    obtain ⟨redo', hcalled'⟩ := h.known r' (mem_written_of_executed h List.mem_cons_self hexecuted)
    have hsame := eq_of_requestId h hcalled' hcalled (Option.some.inj heq)
    cases hsame
    exact ⟨rfl, hexecuted⟩

theorem waiting_read (h : WorldOk w s) {r : ρ} {redo : Redo} (hstage : s.stage = .waiting r redo)
    {x : Line ρ ε} {down : List (Line ρ ε)} (hdown : s.link.down = x :: down) :
    let read : World ρ ε := { s with
      link := { s.link with down := down }, linesRead := s.linesRead ++ [x] }
    WorldOk w (read.reply w r x).1 ∧
      ∀ ret, (read.reply w r x).2 = some ret → ReturnedOk w s (read.reply w r x).1 ret := by
  intro read
  have hmem : x ∈ s.link.down := hdown ▸ List.mem_cons_self
  have hok := h.stage
  simp only [StageOk, hstage] at hok
  obtain ⟨hcalled, hwritten, hread⟩ := hok
  have hanswers := fun response => @answers_of_requestId _ _ _ _ _ h r redo x hcalled hmem response
  -- a line that is passed over answers another request, or none
  have hpass : ∀ response, x.response = some response →
      response.requestId ≠ some (w.requestId r) →
        ∀ y ∈ s.linesRead ++ [x], y.answers ≠ some r := by
    intro response hresponse hne y hy
    rcases List.mem_append.mp hy with hold | hnew
    · exact hread y hold
    · cases List.mem_singleton.mp hnew
      intro ha
      have hlink := h.links s.link List.mem_cons_self
      exact hne ((hlink.answered x hmem r ha).2 response hresponse)
  have hidle : x.event? = none → WorldOk w (read.enter .idle) := by
    intro hevent
    exact h.reading hdown (by simp [read, hevent]) trivial
  have hwait : x.event? = none → (∀ y ∈ s.linesRead ++ [x], y.answers ≠ some r) →
      WorldOk w read := by
    intro hevent hpassed
    have hstay : StageOk { read with stage := .waiting r redo } := ⟨hcalled, hwritten, hpassed⟩
    have hall := h.reading hdown (by simp [read, hevent]) hstay
    rw [← hstage] at hall
    exact hall
  unfold World.reply
  split
  case h_1 hnone =>
    refine ⟨hidle (by simp [Line.event?, hnone]), fun ret hret => ?_⟩
    cases hret
    refine ⟨nofun, nofun, nofun⟩
  case h_2 data hevent =>
    refine ⟨?_, fun ret hret => by cases hret⟩
    have hpassed := hpass _ hevent (by simp [Response.requestId])
    have hstay : StageOk { read with stage := .waiting r redo, events := s.events ++ [data] } :=
      ⟨hcalled, hwritten, hpassed⟩
    have hall := h.reading hdown (by simp [read, Line.event?, hevent]) hstay
    rw [← hstage] at hall
    exact hall
  case h_3 id code message herror =>
    split
    case isTrue hid =>
      refine ⟨hidle (by simp [Line.event?, herror]), fun ret hret => ?_⟩
      cases hret
      refine ⟨nofun, fun code' message' heq => ?_, nofun⟩
      cases heq
      refine ⟨x, rfl, ?_⟩
      rcases hid with rfl | rfl
      · refine .inr ⟨?_, herror⟩
        cases ha : x.answers with
        | none => rfl
        | some r' =>
          have hlink := h.links s.link List.mem_cons_self
          have hid' := (hlink.answered x hmem r' ha).2 _ herror
          cases hid'
      · obtain ⟨ha, hexecuted⟩ := hanswers _ herror rfl
        exact .inl ⟨hmem, ha, hexecuted, herror⟩
    case isFalse hid =>
      refine ⟨hwait (by simp [Line.event?, herror]) (hpass _ herror fun heq => hid (.inr heq)), ?_⟩
      exact fun ret hret => by cases hret
  case h_4 hother =>
    refine ⟨hwait (by simp [Line.event?, hother]) (hpass _ hother (by simp [Response.requestId])), ?_⟩
    exact fun ret hret => by cases hret
  case h_5 response hne herr hoth hresponse =>
    have hevent : x.event? = none := by
      unfold Line.event?
      split
      case h_1 data hdata =>
        rw [hresponse] at hdata
        exact absurd (Option.some.inj hdata) (hne data)
      case h_2 => rfl
    split
    case isTrue hid =>
      refine ⟨hidle hevent, fun ret hret => ?_⟩
      cases hret
      refine ⟨fun response' heq => ?_, nofun, nofun⟩
      cases heq
      obtain ⟨ha, hexecuted⟩ := hanswers _ hresponse hid
      exact ⟨x, hmem, rfl, hresponse, ha, hexecuted⟩
    case isFalse hid =>
      refine ⟨hwait hevent (hpass _ hresponse hid), fun ret hret => by cases hret⟩

/-- `next_event` returns a line that it reads itself at once: the queue is empty then. -/
theorem nextEvent_read (h : WorldOk w s) (hstage : s.stage = .nextEvent)
    (hempty : s.events = []) {x : Line ρ ε} {down : List (Line ρ ε)}
    (hdown : s.link.down = x :: down) :
    WorldOk w (World.readEvent { s with
      link := { s.link with down := down }, linesRead := s.linesRead ++ [x] } x) := by
  unfold World.readEvent
  split
  case h_1 data hevent =>
    exact h.reading hdown (by simp [Line.event?, hevent, hempty]) trivial
  case h_2 hnone =>
    exact h.reading hdown (by simp [Line.event?, hnone]) trivial
  case h_3 herror =>
    exact h.reading hdown (by simp [Line.event?, herror]) trivial
  case h_4 response hne hresponse =>
    have hevent : x.event? = none := by
      unfold Line.event?
      split
      case h_1 data hdata =>
        rw [hresponse] at hdata
        exact absurd (Option.some.inj hdata) (by simp_all)
      case h_2 => rfl
    have hstay : StageOk { s with
        stage := .nextEvent, link := { s.link with down := down }, linesRead := s.linesRead ++ [x] } :=
      hempty
    have hall := h.reading hdown (by simp [hevent]) hstay
    rw [← hstage] at hall
    exact hall

/-- A line that is cut is on its way for the same request. -/
theorem LinkOk.cut (h : LinkOk w l) {x : Line ρ ε} {down : List (Line ρ ε)}
    (hdown : l.down = x :: down) :
    LinkOk w { l with down := { x with response := none } :: down } := by
  have hhead : x ∈ l.down := hdown ▸ List.mem_cons_self
  have hrest : ∀ y ∈ down, y ∈ l.down := fun y hy => hdown ▸ List.mem_cons_of_mem x hy
  refine ⟨h.torn, h.counts, fun y hy r hr => ?_, fun y hy hnone => ?_⟩
  · rcases List.mem_cons.mp hy with rfl | hy
    · exact ⟨(h.answered x hhead r hr).1, nofun⟩
    · exact h.answered y (hrest y hy) r hr
  · rcases List.mem_cons.mp hy with rfl | hy
    · nofun
    · exact h.plain y (hrest y hy) hnone

/-- A step at which no call returns. -/
theorem WorldOk.silent (h : WorldOk w s') :
    WorldOk w s' ∧ ∀ ret, none = some ret → ReturnedOk w s s' ret := by
  refine ⟨h, fun ret hret => ?_⟩
  cases hret

omit [DecidableEq ρ] in
theorem returnedOk_failed {r : ρ} {e : ClientError} (hdaemon : ∀ code message, e ≠ .daemon code message)
    (hrestarted : e ≠ .restarted) : ReturnedOk w s s' ⟨r, .failed e, none⟩ := by
  refine ⟨?_, fun code message heq => ?_, fun heq => ?_⟩
  · intro response heq
    cases heq
  · cases heq
    exact absurd rfl (hdaemon code message)
  · cases heq
    exact absurd rfl hrestarted

omit [DecidableEq ρ] in
theorem returnedOk_disconnected {r : ρ} {reason : String} :
    ReturnedOk w s s' ⟨r, .failed (.disconnected reason), none⟩ := by
  apply returnedOk_failed
  · intro code message heq
    cases heq
  · intro heq
    cases heq

theorem notReopened_ok (h : WorldOk w s) {e : ClientError} {o : Option (Returned ρ ε)}
    (hs : s.step w (.notReopened e) = some (s', o)) :
    WorldOk w s' ∧ ∀ ret, o = some ret → ReturnedOk w s s' ret := by
  simp only [World.step] at hs
  split at hs
  case h_1 => cases hs
  case h_2 r redo code message hstage =>
    cases hs
    refine ⟨h.enter trivial, fun ret hret => ?_⟩
    cases hret
    constructor
    · intro response heq
      cases heq
    · intro code' message' heq
      cases heq
      exact ⟨_, rfl, .inr ⟨rfl, rfl⟩⟩
    · intro heq
      cases heq
  case h_3 r redo hstage hrestarted hdaemon =>
    cases hs
    refine ⟨h.enter trivial, fun ret hret => ?_⟩
    cases hret
    exact returnedOk_failed hdaemon hrestarted
  case h_4 => cases hs

theorem ended_ok (h : WorldOk w s) {cut : Bool} {o : Option (Returned ρ ε)}
    (hs : s.step w (.ended cut) = some (s', o)) :
    WorldOk w s' ∧ ∀ ret, o = some ret → ReturnedOk w s s' ret := by
  simp only [World.step] at hs
  split at hs
  case h_1 r redo hstage =>
    have hok := h.stage
    simp only [StageOk, hstage] at hok
    obtain ⟨hcalled, hwritten, hread⟩ := hok
    split at hs
    case isTrue =>
      cases hs
      refine ⟨h.enter trivial, fun ret hret => ?_⟩
      cases hret
      exact returnedOk_disconnected
    case isFalse =>
      split at hs
      case isTrue hsafe =>
        cases hs
        have hstay : StageOk (s.enter (.reconnecting r redo)) := by
          refine ⟨hcalled, fun hnever => ?_, hread⟩
          rw [hsafe] at hnever
          cases hnever
        exact WorldOk.silent (h.enter hstay)
      case isFalse =>
        cases hs
        refine ⟨h.enter trivial, fun ret hret => ?_⟩
        cases hret
        constructor
        · intro response heq
          cases heq
        · intro code message heq
          cases heq
        · exact fun _ => ⟨hwritten, hread⟩
  case h_2 =>
    cases hs
    exact WorldOk.silent (h.enter trivial)
  case h_3 => cases hs

theorem timedOut_ok (h : WorldOk w s) {cut : Bool} {o : Option (Returned ρ ε)}
    (hs : s.step w (.timedOut cut) = some (s', o)) :
    WorldOk w s' ∧ ∀ ret, o = some ret → ReturnedOk w s s' ret := by
  simp only [World.step] at hs
  split at hs
  case h_2 => cases hs
  case h_1 r redo hstage =>
    cases hs
    refine ⟨?_, fun ret hret => ?_⟩
    · have hlink := h.links s.link List.mem_cons_self
      have hidle : WorldOk w (s.enter .idle) := h.enter trivial
      split
      case h_1 x down _ hdown => exact @WorldOk.relink _ _ _ _ _ hidle _ (hlink.cut hdown) rfl
      case h_2 => exact @WorldOk.relink _ _ _ _ _ hidle _ hlink rfl
    · cases hret
      exact returnedOk_disconnected

theorem read_ok (h : WorldOk w s) {o : Option (Returned ρ ε)}
    (hs : s.step w .read = some (s', o)) :
    WorldOk w s' ∧ ∀ ret, o = some ret → ReturnedOk w s s' ret := by
  simp only [World.step] at hs
  split at hs
  case h_1 => cases hs
  case h_2 x down hdown =>
    split at hs
    case h_1 r redo hstage =>
      have hall := waiting_read h hstage hdown
      have heq := Option.some.inj hs
      rw [Prod.ext_iff] at heq
      obtain ⟨rfl, rfl⟩ := heq
      exact hall
    case h_2 hstage =>
      cases hs
      have hempty : s.events = [] := by
        have hok := h.stage
        simpa only [StageOk, hstage] using hok
      exact WorldOk.silent (nextEvent_read h hstage hempty hdown)
    case h_3 => cases hs

theorem step_ok (h : WorldOk w s) (hw : w.Lawful) {e : Input ρ ε} {o : Option (Returned ρ ε)}
    (hs : s.step w e = some (s', o)) :
    WorldOk w s' ∧ ∀ ret, o = some ret → ReturnedOk w s s' ret := by
  cases e with
  | call r redo =>
    obtain ⟨⟨-, hfresh⟩, rfl, rfl⟩ := World.step_call hs
    exact WorldOk.silent (h.call hfresh)
  | writeAll =>
    simp only [World.step] at hs
    split at hs
    case h_1 r redo hstage =>
      cases hs
      exact WorldOk.silent (h.writeAll hw hstage)
    case h_2 => cases hs
  | writeFails n =>
    simp only [World.step] at hs
    split at hs
    case h_1 r redo hstage =>
      split at hs
      case isTrue hn =>
        cases hs
        have hok := h.stage
        simp only [StageOk, hstage] at hok
        have hlink := (h.links s.link List.mem_cons_self).writeFails hw r hn
        have hstay : WorldOk w (s.enter (.reconnecting r redo)) := h.enter hok
        exact WorldOk.silent (@WorldOk.relink _ _ _ _ _ hstay _ hlink rfl)
      case isFalse => cases hs
    case h_2 => cases hs
  | reopened =>
    simp only [World.step] at hs
    split at hs
    case h_1 r redo hstage =>
      cases hs
      exact WorldOk.silent (h.reopened hstage)
    case h_2 => cases hs
  | notReopened e => exact notReopened_ok h hs
  | read => exact read_ok h hs
  | timedOut cut => exact timedOut_ok h hs
  | ended cut => exact ended_ok h hs
  | nextEvent =>
    simp only [World.step] at hs
    split at hs
    case h_1 hstage =>
      split at hs
      case h_1 hempty =>
        cases hs
        exact WorldOk.silent (h.enter hempty)
      case h_2 data events hevents =>
        cases hs
        refine WorldOk.silent ⟨h.links, h.once, h.known, h.ids, ?_, h.read, ?_⟩
        · simp only [StageOk, hstage]
        · rw [← h.events, hevents, List.append_assoc, List.singleton_append]
    case h_2 => cases hs
  | daemon left e =>
    simp only [World.step] at hs
    obtain ⟨s'', hdaemon, heq⟩ := Option.map_eq_some_iff.mp hs
    cases heq
    exact WorldOk.silent (h.daemon hdaemon)

/-- Over every run: a request that must not be sent twice is executed once at most; what a call
returns is the answer to its own request, or an error line that answers none; `restarted` means
that the whole line was written and no answer was read; and the events that were read are the ones
that `next_event` has returned and then the ones that it will return next, in their order. -/
theorem request_executed_once (hw : w.Lawful)
    {h : List (Transition (World ρ ε) (Input ρ ε) (Option (Returned ρ ε)))}
    (hr : (exchange w).Run h s) :
    (∀ r, (r, .never) ∈ s.called → s.executed.count r ≤ 1) ∧
    (∀ t ∈ h, ∀ ret, t.output = some ret → ReturnedOk w t.before t.after ret) ∧
    s.eventsReturned ++ s.events = s.linesRead.filterMap Line.event? := by
  have hall : ∀ {s : World ρ ε}, (exchange w).Reachable s → WorldOk w s := by
    intro s hreach
    refine hreach.invariant (P := WorldOk w) ?_ fun s e s' o hok hs => (step_ok hok hw hs).1
    rintro s rfl
    exact worldOk_start
  have hok := hall hr.reachable
  refine ⟨fun r hr => (hok.executed_le r).trans (hok.once r hr), fun t ht ret hret => ?_, hok.events⟩
  obtain ⟨hreach, hs⟩ := hr.of_mem t ht
  exact (step_ok (hall hreach) hw hs).2 ret hret

end

/-- Two requests, each a line of three bytes. -/
def twoRequests : Wire Bool where
  requestId r := if r then "c1-1" else "c1-2"
  encode r := [123, if r then 49 else 48, 125]
  decode l := if l = [123, 49, 125] then some true else if l = [123, 48, 125] then some false
    else none

theorem twoRequests_lawful : twoRequests.Lawful where
  oneLine := by decide
  readBack := by decide
  torn pieces r _ hne := by
    have hlong : 0 < pieces.flatten.length := List.length_pos_iff.mpr hne
    have hnot : ∀ l : List UInt8, l.length = 3 → pieces.flatten ++ twoRequests.encode r ≠ l := by
      intro l hl heq
      have hlength := congrArg List.length heq
      simp only [List.length_append, hl, twoRequests, List.length_cons, List.length_nil] at hlength
      omega
    simp only [twoRequests] at hnot ⊢
    rw [if_neg (hnot _ rfl), if_neg (hnot _ rfl)]

/-- A write that fails after two bytes, the request sent again on a new connection, and an event
before the answer. -/
theorem request_executed_once_resent :
    let played := Machine.play (World.step twoRequests) [] (start : World Bool Nat)
      [.call true .never, .writeFails 2, .reopened, .daemon (some 0) (.fill 9), .writeAll,
        .daemon none (.fill 9), .daemon none (.send (.event 7)),
        .daemon none (.answer true (.commandResult "c1-1" "accepted")), .read, .read, .nextEvent]
    played.1.length = 11 ∧ played.2.executed = [true] ∧ played.2.eventsReturned = [7] ∧
      played.1.filterMap (·.output) = [⟨true, .reply (.commandResult "c1-1" "accepted"),
        some ⟨some (.commandResult "c1-1" "accepted"), some true⟩⟩] ∧
      ∀ r, (r, .never) ∈ played.2.called → played.2.executed.count r ≤ 1 := by
  intro played
  have hr : (exchange twoRequests).Run played.1 played.2 :=
    (Machine.Run.start (M := exchange twoRequests) rfl).play fun _ _ _ _ hn => hn
  have hall := request_executed_once twoRequests_lawful hr
  exact ⟨by decide +kernel, by decide +kernel, by decide +kernel, by decide +kernel, hall.1⟩

end Agend.Connection
