import Agend.Terminal.Link

/-! What a terminal subscriber has received, over every order of requests, answers, chunks and
disconnects: one screen and the chunks right after it, as long as no chunk of a later connection
reaches it. -/
namespace Agend.Terminal

open Library

/-- One screen of the holder and the chunks right after it, all read from one connection. -/
def Receiver.Gapless (render : List String → String) (output : List String) (r : Receiver) : Prop :=
  (∃ p ≤ output.length, r.screen = render (output.take p) ∧
    r.received.map Chunk.bytes <+: output.drop p) ∧
  ∀ c ∈ r.received, c.epoch = r.epoch

/-- A chunk is read only while every receiver that can still get it has its screen from the same
connection. -/
def Steady (t : Transition World Event Unit) : Prop :=
  t.event = .read → ∀ c ∈ t.before.conn.toList, c.chunkNext = true →
    ∀ r ∈ t.before.receivers, r.lagged = false → r.epoch = c.epoch

instance : DecidablePred Steady := fun t =>
  inferInstanceAs (Decidable (t.event = .read → ∀ c ∈ t.before.conn.toList, c.chunkNext = true →
    ∀ r ∈ t.before.receivers, r.lagged = false → r.epoch = c.epoch))

/-- What comes after a position of the output, up to its end while the holder still sends. -/
def Tail (attached : Bool) (xs ys : List String) : Prop :=
  xs <+: ys ∧ (attached = true → xs = ys)

/-- Every screen on its way is one of the holder, with the chunks right after it behind it. -/
def Follows (render : List String → String) (attached : Bool) (output : List String) :
    List HolderResponse → Prop
  | [] => True
  | .screenSnapshot screen :: rest =>
    (∃ p ≤ output.length, screen = render (output.take p) ∧
      Tail attached (chunks rest) (output.drop p)) ∧
    Follows render attached output rest
  | .ptyBytes _ :: rest => Follows render attached output rest

/-- What holds of a receiver whose screen was taken at `p`. -/
structure Fed (render : List String → String) (output : List String) (conn : Option Conn)
    (p : Nat) (r : Receiver) : Prop where
  le : p ≤ output.length
  screen : r.screen = render (output.take p)
  received : r.received.map Chunk.bytes <+: output.drop p
  queued : r.lagged = false → (r.received ++ r.queue).map Chunk.bytes <+: output.drop p
  ahead : ∀ c, conn = some c → r.epoch = c.epoch → r.lagged = false →
    Tail c.attached ((r.received ++ r.queue).map Chunk.bytes ++ chunks c.inbox) (output.drop p)
  own : ∀ c ∈ r.received, c.epoch = r.epoch
  owned : r.lagged = false → ∀ c ∈ r.queue, c.epoch = r.epoch

structure Streaming (render : List String → String) (s : World) : Prop where
  older : ∀ c, s.conn = some c → c.epoch < s.epochs
  follows : ∀ c, s.conn = some c → Follows render c.attached s.output c.inbox
  made : ∀ r ∈ s.receivers, r.epoch < s.epochs
  fed : ∀ r ∈ s.receivers, ∃ p, Fed render s.output s.conn p r
  fresh : ∀ c, s.conn = some c → c.published = false → ∀ r ∈ s.receivers, r.epoch ≠ c.epoch

variable {render : List String → String} {output xs ys : List String} {attached : Bool}
  {bytes screen : String} {inbox : List HolderResponse} {conn conn' : Option Conn} {p : Nat}
  {r r' : Receiver} {c c' : Conn} {s s' : World} {e : Event} {u : Unit}
  {h : List (Transition World Event Unit)}

theorem Tail.detach (ht : Tail attached xs ys) (b : Bool) (hb : b = true → attached = true) :
    Tail b xs ys :=
  ⟨ht.1, fun h => ht.2 (hb h)⟩

/-- A chunk reaches the end of the output, and of what was sent if the holder still sends. -/
theorem Tail.grow (hp : p ≤ output.length) (ht : Tail attached xs (output.drop p)) :
    Tail attached (xs ++ if attached = true then [bytes] else []) ((output ++ [bytes]).drop p) := by
  rw [List.drop_append_of_le_length hp]
  cases attached with
  | true =>
    obtain rfl := ht.2 rfl
    exact ⟨List.prefix_rfl, fun _ => rfl⟩
  | false =>
    rw [if_neg Bool.false_ne_true, List.append_nil]
    exact ⟨ht.1.trans (List.prefix_append _ _), fun h => by cases h⟩

theorem take_output (hp : p ≤ output.length) : (output ++ [bytes]).take p = output.take p :=
  List.take_append_of_le_length hp

theorem le_output (hp : p ≤ output.length) : p ≤ (output ++ [bytes]).length := by
  rw [List.length_append]
  exact Nat.le_add_right_of_le hp

theorem chunks_sent_bytes (c : Conn) (bytes : String) :
    chunks (c.sent (.ptyBytes bytes)).inbox =
      chunks c.inbox ++ if c.attached = true then [bytes] else [] := by
  unfold Conn.sent
  split <;> simp

@[simp] theorem sent_epoch (c : Conn) (x : HolderResponse) : (c.sent x).epoch = c.epoch := by
  unfold Conn.sent
  split <;> rfl

@[simp] theorem sent_attached (c : Conn) (x : HolderResponse) :
    (c.sent x).attached = c.attached := by
  unfold Conn.sent
  split <;> rfl

@[simp] theorem sent_published (c : Conn) (x : HolderResponse) :
    (c.sent x).published = c.published := by
  unfold Conn.sent
  split <;> rfl

theorem Follows.detach (hf : Follows render attached output inbox) (b : Bool)
    (hb : b = true → attached = true) : Follows render b output inbox := by
  induction inbox with
  | nil => trivial
  | cons x inbox ih =>
    cases x with
    | screenSnapshot screen =>
      obtain ⟨⟨p, hp, hs, ht⟩, hf⟩ := hf
      exact ⟨⟨p, hp, hs, ht.detach b hb⟩, ih hf⟩
    | ptyBytes bytes => exact ih hf

theorem Follows.tail {x : HolderResponse} (hf : Follows render attached output (x :: inbox)) :
    Follows render attached output inbox := by
  cases x with
  | screenSnapshot screen => exact hf.2
  | ptyBytes bytes => exact hf

/-- The output grows by a chunk that is sent if the holder still sends. -/
theorem Follows.grow (hf : Follows render attached output inbox) (bytes : String) :
    Follows render attached (output ++ [bytes])
      (inbox ++ if attached = true then [.ptyBytes bytes] else []) := by
  induction inbox with
  | nil => cases attached <;> trivial
  | cons x inbox ih =>
    cases x with
    | screenSnapshot screen =>
      obtain ⟨⟨p, hp, hs, ht⟩, hf⟩ := hf
      refine ⟨⟨p, le_output hp, hs.trans (by rw [take_output hp]), ?_⟩, ih hf⟩
      have hsent : chunks (inbox ++ if attached = true then [.ptyBytes bytes] else []) =
          chunks inbox ++ if attached = true then [bytes] else [] := by
        cases attached <;> simp
      change Tail attached (chunks (inbox ++ _)) _
      rw [hsent]
      exact ht.grow hp
    | ptyBytes _ => exact ih hf

/-- The holder answers with its screen at this point. -/
theorem Follows.answer (hf : Follows render attached output inbox) :
    Follows render attached output (inbox ++ [.screenSnapshot (render output)]) := by
  induction inbox with
  | nil =>
    refine ⟨⟨output.length, Nat.le_refl _, by rw [List.take_length], ?_⟩, trivial⟩
    rw [List.drop_length]
    exact ⟨List.prefix_rfl, fun _ => rfl⟩
  | cons x inbox ih =>
    cases x with
    | screenSnapshot screen =>
      obtain ⟨⟨p, hp, hs, ht⟩, hf⟩ := hf
      refine ⟨⟨p, hp, hs, ?_⟩, ih hf⟩
      simpa using ht
    | ptyBytes _ => exact ih hf

theorem follows_sent_bytes (hf : Follows render c.attached output c.inbox) (bytes : String) :
    Follows render c.attached (output ++ [bytes]) (c.sent (.ptyBytes bytes)).inbox := by
  have hi : (c.sent (.ptyBytes bytes)).inbox =
      c.inbox ++ if c.attached = true then [.ptyBytes bytes] else [] := by
    unfold Conn.sent
    split <;> simp
  rw [hi]
  exact hf.grow bytes

/-- A receiver does not see its connection go, nor a request, nor an answer. -/
theorem Fed.across (hr : Fed render output conn p r)
    (hc : ∀ c', conn' = some c' → r.epoch = c'.epoch → ∃ c, conn = some c ∧ c'.epoch = c.epoch ∧
      chunks c'.inbox = chunks c.inbox ∧ (c'.attached = true → c.attached = true)) :
    Fed render output conn' p r where
  le := hr.le
  screen := hr.screen
  received := hr.received
  queued := hr.queued
  ahead c' hc' he hl := by
    obtain ⟨c, hcc, hce, hci, ha⟩ := hc c' hc' he
    rw [hci]
    exact (hr.ahead c hcc (he.trans hce) hl).detach _ ha
  own := hr.own
  owned := hr.owned

theorem Fed.grow (hr : Fed render output conn p r) (bytes : String) :
    Fed render (output ++ [bytes]) (conn.map fun c => c.sent (.ptyBytes bytes)) p r where
  le := le_output hr.le
  screen := hr.screen.trans (by rw [take_output hr.le])
  received := by
    rw [List.drop_append_of_le_length hr.le]
    exact hr.received.trans (List.prefix_append _ _)
  queued hl := by
    rw [List.drop_append_of_le_length hr.le]
    exact (hr.queued hl).trans (List.prefix_append _ _)
  ahead c' hc' he hl := by
    obtain ⟨c, hc, rfl⟩ := Option.map_eq_some_iff.mp hc'
    rw [sent_epoch] at he
    rw [sent_attached, chunks_sent_bytes, ← List.append_assoc]
    exact (hr.ahead c hc he hl).grow hr.le
  own := hr.own
  owned := hr.owned

@[simp] theorem send_epoch (r : Receiver) (x : Chunk) : (r.send x).epoch = r.epoch := by
  unfold Receiver.send
  split <;> rfl

/-- A new receiver starts at its screen. -/
theorem fed_subscribe (hp : p ≤ output.length) (hs : screen = render (output.take p))
    (ht : Tail c.attached (chunks c.inbox) (output.drop p)) :
    Fed render output (some c) p (.subscribe c.epoch screen) where
  le := hp
  screen := hs
  received := List.nil_prefix
  queued _ := List.nil_prefix
  ahead c' hc' _ _ := by
    obtain rfl := Option.some.inj hc'
    exact ht
  own := nofun
  owned _ := nofun

/-- A chunk of its own connection moves from the inbox to the queue. -/
theorem Fed.send (hr : Fed render output (some c) p r)
    (hi : c.inbox = .ptyBytes bytes :: inbox) (he : r.lagged = false → r.epoch = c.epoch) :
    Fed render output (some { c with inbox }) p (r.send ⟨c.epoch, bytes⟩) := by
  unfold Receiver.send
  split
  · have happend : (r.received ++ (r.queue ++ [(⟨c.epoch, bytes⟩ : Chunk)])).map Chunk.bytes =
        (r.received ++ r.queue).map Chunk.bytes ++ [bytes] := by simp
    have hnext : r.lagged = false → Tail c.attached
        ((r.received ++ (r.queue ++ [(⟨c.epoch, bytes⟩ : Chunk)])).map Chunk.bytes ++ chunks inbox)
        (output.drop p) := by
      intro hl
      have ht := hr.ahead c rfl (he hl) hl
      rw [hi, chunks_bytes, List.append_cons] at ht
      rw [happend]
      exact ht
    refine ⟨hr.le, hr.screen, hr.received, fun hl => ?_, fun c' hc' _ hl => ?_, hr.own,
      fun hl x hx => ?_⟩
    · exact (List.prefix_append _ _).trans (hnext hl).1
    · obtain rfl := Option.some.inj hc'
      exact hnext hl
    · rcases List.mem_append.mp hx with hx | hx
      · exact hr.owned hl x hx
      · rw [List.mem_singleton.mp hx]
        exact (he hl).symm
  · exact ⟨hr.le, hr.screen, hr.received, nofun, fun _ _ _ => nofun, hr.own, nofun⟩

theorem Fed.recv {closed : Bool} (hr : Fed render output conn p r)
    (hv : r.recv closed = some r') : Fed render output conn p r' ∧ r'.epoch = r.epoch := by
  have htold : Fed render output conn p { r with told := true } :=
    ⟨hr.le, hr.screen, hr.received, hr.queued, hr.ahead, hr.own, hr.owned⟩
  unfold Receiver.recv at hv
  split at hv
  · cases hv
  · split at hv
    · cases hv
      exact ⟨htold, rfl⟩
    · rename_i hlag
      have hl : r.lagged = false := Bool.eq_false_iff.mpr hlag
      split at hv
      · rename_i x rest hq
        cases hv
        have hmove : r.received ++ r.queue = r.received ++ [x] ++ rest := by
          rw [hq, List.append_cons]
        have hqueued := hr.queued hl
        refine ⟨⟨hr.le, hr.screen, ?_, fun _ => ?_, fun c hc he hl => ?_, fun y hy => ?_,
          fun hl y hy => ?_⟩, rfl⟩
        · rw [hmove, List.map_append] at hqueued
          exact (List.prefix_append _ _).trans hqueued
        · rw [← hmove]
          exact hqueued
        · rw [← hmove]
          exact hr.ahead c hc he hl
        · rcases List.mem_append.mp hy with hy | hy
          · exact hr.own y hy
          · rw [List.mem_singleton.mp hy]
            exact hr.owned hl x (hq ▸ List.mem_cons_self)
        · exact hr.owned hl y (hq ▸ List.mem_cons_of_mem _ hy)
      · split at hv
        · cases hv
          exact ⟨htold, rfl⟩
        · cases hv

theorem Fed.gapless (hr : Fed render output conn p r) : r.Gapless render output :=
  ⟨⟨p, hr.le, hr.screen, hr.received⟩, hr.own⟩

theorem streaming_init (hi : (stream render).init s) : Streaming render s := by
  obtain rfl : s = _ := hi
  exact ⟨nofun, nofun, nofun, nofun, nofun⟩

/-- The connection goes, and every subscriber keeps what it has. -/
theorem Streaming.drop (hs : Streaming render s) (pending : List Bool) (closed : Bool) :
    Streaming render { s with conn := none, pending, closed } where
  older := nofun
  follows := nofun
  made := hs.made
  fed r hr := (hs.fed r hr).imp fun _ hf => hf.across nofun
  fresh := nofun

/-- A change of the connection that takes no chunk from it. -/
theorem Streaming.across (hs : Streaming render s) (hc : s.conn = some c)
    (he : c'.epoch = c.epoch) (hi : chunks c'.inbox = chunks c.inbox)
    (ha : c'.attached = true → c.attached = true) (hp : c.published = true → c'.published = true)
    (hf : Follows render c'.attached s.output c'.inbox) :
    Streaming render { s with conn := some c' } where
  older x hx := by
    obtain rfl := Option.some.inj hx
    rw [he]
    exact hs.older c hc
  follows x hx := by
    obtain rfl := Option.some.inj hx
    exact hf
  made := hs.made
  fed r hr := (hs.fed r hr).imp fun _ h => h.across fun x hx _ => by
    obtain rfl := Option.some.inj hx
    exact ⟨c, hc, he, hi, ha⟩
  fresh x hx hpub r hr := by
    obtain rfl := Option.some.inj hx
    rw [he]
    refine hs.fresh c hc ?_ r hr
    cases hcp : c.published with
    | false => rfl
    | true => exact absurd (hp hcp) (Bool.eq_false_iff.mp hpub)

theorem streaming_read {rest : List HolderResponse} {x : HolderResponse}
    (hs : Streaming render s) (hc : s.conn = some c) (hpub : c.published = true)
    (hi : c.inbox = x :: rest)
    (hst : ∀ bytes, x = .ptyBytes bytes → ∀ r ∈ s.receivers, r.lagged = false → r.epoch = c.epoch) :
    Streaming render ({ s with conn := some { c with inbox := rest } }.handle c x) := by
  have hfol := hs.follows c hc
  rw [hi] at hfol
  have holder : ∀ y, some { c with inbox := rest } = some y → y.epoch < s.epochs := by
    intro y hy
    obtain rfl := Option.some.inj hy
    exact hs.older c hc
  have hfollows : ∀ y, some { c with inbox := rest } = some y →
      Follows render y.attached s.output y.inbox := by
    intro y hy
    obtain rfl := Option.some.inj hy
    exact hfol.tail
  have hpublished : ∀ y, some { c with inbox := rest } = some y → y.published ≠ false := by
    intro y hy
    obtain rfl := Option.some.inj hy
    exact fun hn => Bool.false_ne_true (hn.symm.trans hpub)
  cases x with
  | screenSnapshot screen =>
    obtain ⟨⟨p, hp, hscreen, ht⟩, -⟩ := hfol
    have hchunks : chunks rest = chunks c.inbox := by rw [hi, chunks_screen]
    refine ⟨holder, hfollows, fun r hr => ?_, fun r hr => ?_,
      fun y hy hn => absurd hn (hpublished y hy)⟩
    · rcases List.mem_append.mp hr with hr | hr
      · exact hs.made r hr
      · obtain ⟨_, -, rfl⟩ := List.mem_map.mp hr
        exact hs.older c hc
    · rcases List.mem_append.mp hr with hr | hr
      · refine (hs.fed r hr).imp fun _ h => h.across fun y hy _ => ?_
        obtain rfl := Option.some.inj hy
        exact ⟨c, hc, rfl, hchunks, id⟩
      · obtain ⟨_, -, rfl⟩ := List.mem_map.mp hr
        exact ⟨p, fed_subscribe (c := { c with inbox := rest }) hp hscreen ht⟩
  | ptyBytes bytes =>
    refine ⟨holder, hfollows, fun r hr => ?_, fun r hr => ?_,
      fun y hy hn => absurd hn (hpublished y hy)⟩
    · obtain ⟨r0, hr0, rfl⟩ := List.mem_map.mp hr
      rw [send_epoch]
      exact hs.made r0 hr0
    · obtain ⟨r0, hr0, rfl⟩ := List.mem_map.mp hr
      obtain ⟨p, hf⟩ := hs.fed r0 hr0
      rw [hc] at hf
      exact ⟨p, hf.send hi (hst bytes rfl r0 hr0)⟩

/-- A receiver's own step. -/
theorem Streaming.receivers (hs : Streaming render s) {rs : List Receiver}
    (hrs : ∀ r' ∈ rs, ∃ r ∈ s.receivers, r'.epoch = r.epoch ∧
      ∀ p, Fed render s.output s.conn p r → Fed render s.output s.conn p r') :
    Streaming render { s with receivers := rs } where
  older := hs.older
  follows := hs.follows
  made r' hr' := by
    obtain ⟨r, hr, he, -⟩ := hrs r' hr'
    rw [he]
    exact hs.made r hr
  fed r' hr' := by
    obtain ⟨r, hr, -, hf⟩ := hrs r' hr'
    exact (hs.fed r hr).imp hf
  fresh c hc hp r' hr' := by
    obtain ⟨r, hr, he, -⟩ := hrs r' hr'
    rw [he]
    exact hs.fresh c hc hp r hr

theorem streaming_output (hs : Streaming render s) (bytes : String) :
    Streaming render { s with
      output := s.output ++ [bytes]
      conn := s.conn.map fun c => c.sent (.ptyBytes bytes) } where
  older c' hc' := by
    obtain ⟨c, hc, rfl⟩ := Option.map_eq_some_iff.mp hc'
    rw [sent_epoch]
    exact hs.older c hc
  follows c' hc' := by
    obtain ⟨c, hc, rfl⟩ := Option.map_eq_some_iff.mp hc'
    rw [sent_attached]
    exact follows_sent_bytes (hs.follows c hc) bytes
  made := hs.made
  fed r hr := (hs.fed r hr).imp fun _ hf => hf.grow bytes
  fresh c' hc' hp r hr := by
    obtain ⟨c, hc, rfl⟩ := Option.map_eq_some_iff.mp hc'
    rw [sent_published] at hp
    rw [sent_epoch]
    exact hs.fresh c hc hp r hr

/-- A connection that nobody has a screen of. -/
theorem streaming_connect (hs : Streaming render s) :
    Streaming render { s with
      epochs := s.epochs + 1
      conn := some
        { epoch := s.epochs, attached := true, published := false, requests := 0, inbox := [] } } where
  older c hc := by
    obtain rfl := Option.some.inj hc
    exact Nat.lt_succ_self _
  follows c hc := by
    obtain rfl := Option.some.inj hc
    trivial
  made r hr := Nat.lt_succ_of_lt (hs.made r hr)
  fed r hr := (hs.fed r hr).imp fun _ hf => hf.across fun c hc he => by
    obtain rfl := Option.some.inj hc
    exact absurd he (Nat.ne_of_lt (hs.made r hr))
  fresh c hc _ r hr := by
    obtain rfl := Option.some.inj hc
    exact Nat.ne_of_lt (hs.made r hr)

/-- What is read before a connection is published is nobody's. -/
theorem streaming_skip {rest : List HolderResponse} {x : HolderResponse} (hs : Streaming render s)
    (hc : s.conn = some c) (hpub : c.published = false) (hi : c.inbox = x :: rest) :
    Streaming render { s with conn := some { c with inbox := rest } } where
  older y hy := by
    obtain rfl := Option.some.inj hy
    exact hs.older c hc
  follows y hy := by
    obtain rfl := Option.some.inj hy
    have hfol := hs.follows c hc
    rw [hi] at hfol
    exact hfol.tail
  made := hs.made
  fed r hr := (hs.fed r hr).imp fun _ hf => hf.across fun y hy he => by
    obtain rfl := Option.some.inj hy
    exact absurd he (hs.fresh c hc hpub r hr)
  fresh y hy _ := by
    obtain rfl := Option.some.inj hy
    exact hs.fresh c hc hpub

theorem streaming_answer (hs : Streaming render s) (hc : s.conn = some c)
    (ha : c.attached = true) (n : Nat) :
    Streaming render { s with
      conn := some ({ c with requests := n }.sent (.screenSnapshot (render s.output))) } := by
  have hsent : ({ c with requests := n }.sent (.screenSnapshot (render s.output))) =
      { c with requests := n, inbox := c.inbox ++ [.screenSnapshot (render s.output)] } := if_pos ha
  rw [hsent]
  exact hs.across hc rfl (by simp) id id (hs.follows c hc).answer

/-- One step keeps every subscriber fed, unless it reads a chunk past a receiver of an earlier
connection. -/
theorem streaming_step (hs : Streaming render s) (hx : (stream render).step s e s' u)
    (hst : Steady ⟨s, e, s', u⟩) : Streaming render s' := by
  have hx : s.next render e = some s' := hx
  cases e with
  | output bytes =>
    cases hx
    exact streaming_output hs bytes
  | answer =>
    obtain ⟨c, hc, hx⟩ := Option.bind_eq_some_iff.mp hx
    split at hx
    · rename_i hcond
      cases hx
      exact streaming_answer hs hc (Bool.and_eq_true_iff.mp hcond).1 _
    · cases hx
  | detach =>
    obtain ⟨c, hc, hx⟩ := Option.bind_eq_some_iff.mp hx
    cases hx
    exact hs.across hc rfl rfl nofun id ((hs.follows c hc).detach _ nofun)
  | terminalRequest =>
    change (if s.closed then none else _) = _ at hx
    split at hx
    · cases hx
    · cases hx
      exact ⟨hs.older, hs.follows, hs.made, hs.fed, hs.fresh⟩
  | sendSnapshot =>
    obtain ⟨c, hc, hx⟩ := Option.bind_eq_some_iff.mp hx
    split at hx
    · cases hx
      exact hs.across hc rfl rfl id id (hs.follows c hc)
    · cases hx
  | abandon k =>
    cases hx
    exact ⟨hs.older, hs.follows, hs.made, hs.fed, hs.fresh⟩
  | read =>
    obtain ⟨c, hc, hx⟩ := Option.bind_eq_some_iff.mp hx
    split at hx
    · rename_i hpub
      split at hx
      · rename_i x rest hi
        cases hx
        refine streaming_read hs hc hpub hi fun bytes hb => ?_
        refine hst rfl c (Option.mem_toList.mpr hc) ?_
        rw [Conn.chunkNext, hi, hb]
      · cases hx
    · cases hx
  | disconnected =>
    obtain ⟨c, hc, hx⟩ := Option.bind_eq_some_iff.mp hx
    split at hx
    · cases hx
      exact hs.drop [] s.closed
    · cases hx
  | connect =>
    change (if s.closed || s.conn.isSome then none else _) = _ at hx
    split at hx
    · cases hx
    · cases hx
      exact streaming_connect hs
  | skip =>
    obtain ⟨c, hc, hx⟩ := Option.bind_eq_some_iff.mp hx
    split at hx
    · cases hx
    · rename_i hpub
      split at hx
      · rename_i x rest hi
        cases hx
        exact streaming_skip hs hc (Bool.eq_false_iff.mpr hpub) hi
      · cases hx
  | publish =>
    obtain ⟨c, hc, hx⟩ := Option.bind_eq_some_iff.mp hx
    split at hx
    · cases hx
    · cases hx
      exact hs.across hc rfl rfl id (fun _ => rfl) (hs.follows c hc)
  | refuse =>
    obtain ⟨c, hc, hx⟩ := Option.bind_eq_some_iff.mp hx
    split at hx
    · cases hx
    · cases hx
      exact hs.drop s.pending s.closed
  | recv k =>
    obtain ⟨r, hr, hx⟩ := Option.bind_eq_some_iff.mp hx
    obtain ⟨r', hr', hx⟩ := Option.bind_eq_some_iff.mp hx
    cases hx
    refine hs.receivers fun x hx => ?_
    rcases List.mem_or_eq_of_mem_set hx with hx | rfl
    · exact ⟨x, hx, rfl, fun _ => id⟩
    · have hepoch : x.epoch = r.epoch := by
        obtain ⟨p, hf⟩ := hs.fed r (List.mem_of_getElem? hr)
        exact (hf.recv hr').2
      exact ⟨r, List.mem_of_getElem? hr, hepoch, fun p hf => (hf.recv hr').1⟩
  | leave k =>
    cases hx
    exact hs.receivers fun x hx => ⟨x, List.mem_of_mem_eraseIdx hx, rfl, fun _ => id⟩
  | close =>
    cases hx
    exact hs.drop s.pending true

/-- What a subscriber has received is one screen and the chunks right after it, all of one
connection, in every run that reads no chunk past a receiver of an earlier connection. -/
theorem terminal_stream_gapless (render : List String → String)
    {h : List (Transition World Event Unit)} {s : World} (hr : (stream render).Run h s)
    (hst : ∀ t ∈ h, Steady t) : ∀ r ∈ s.receivers, r.Gapless render s.output := by
  have hstreaming : Streaming render s := by
    induction hr with
    | start hi => exact streaming_init hi
    | snoc hr hx ih =>
      exact streaming_step (ih fun t ht => hst t (List.mem_cons_of_mem _ ht)) hx
        (hst _ List.mem_cons_self)
  intro r hr
  obtain ⟨p, hf⟩ := hstreaming.fed r hr
  exact hf.gapless

/-- A connection that is made and asked for its screen. -/
def subscribed : List Event :=
  [.connect, .publish, .terminalRequest, .sendSnapshot, .answer, .read]

/-- Two subscribers of one connection, one of which comes later, get all that follows. -/
theorem terminal_stream_gapless_two :
    let played := streamed String.join (subscribed ++
      [.output "a", .read, .terminalRequest, .sendSnapshot, .answer, .read, .output "b", .read,
        .recv 0, .recv 0, .recv 1])
    played.2.receivers.map (fun r => (r.screen, r.received.map Chunk.bytes)) =
        [("", ["a", "b"]), ("a", ["b"])] ∧
      ∀ r ∈ played.2.receivers, r.Gapless String.join played.2.output := by
  intro played
  exact ⟨by decide +kernel,
    terminal_stream_gapless String.join (run_streamed _ _) (by decide +kernel)⟩

/-- A chunk is written between two connections: the subscriber of the first gets the next one. -/
theorem terminal_stream_skips :
    ∃ h s, (stream String.join).Run h s ∧ ∃ r ∈ s.receivers, r.told = false ∧
      ¬ r.Gapless String.join s.output := by
  let played := streamed String.join (subscribed ++
    [.output "a", .read, .recv 0, .detach, .disconnected, .output "b", .connect, .publish,
      .output "c", .read, .recv 0])
  refine ⟨played.1, played.2, run_streamed _ _, ?_⟩
  have hgot : played.2.receivers.map (fun r => (r.told, r.received.map Chunk.bytes)) =
      [(false, ["a", "c"])] := by decide +kernel
  have hout : played.2.output = ["a", "b", "c"] := by decide +kernel
  obtain ⟨r, hr, hrec⟩ := List.mem_map.mp (hgot ▸ List.mem_singleton_self (false, ["a", "c"]))
  obtain ⟨htold, hrec⟩ := Prod.mk.inj hrec
  refine ⟨r, hr, htold, fun hg => ?_⟩
  obtain ⟨⟨p, hp, -, hpre⟩, -⟩ := hg
  rw [hrec, hout] at hpre
  rw [hout] at hp
  have hnone : ∀ p ≤ 3, ¬ ["a", "c"] <+: (["a", "b", "c"].drop p) := by decide
  exact hnone p hp hpre

end Agend.Terminal
