import Mathlib.Algebra.Group.Nat.Defs
import Agend.Spool.Duties

/-! Each program of a helper or of the daemon does its duty at each call, and what it knows when it
succeeds. -/
namespace Agend.Spool

open Library Program
open Agend.Runtime hiding Reply

variable {F : Formats} {w w' w'' : World} {r : ClaudeRequest} {e : Entry} {kind : Kind}
  {i j n : Nat} {id : String} {data : HookData} {name : Name} {c : Call} {a : Answer}

def pact (F : Formats) : Pact (interface F) where
  safe := Sound F
  rely := Rely
  refl _ _ := .refl
  trans _ _ _ _ := Rely.trans
  assumes := Assumed
  duty i w c _ := Duty F i w c

/-- What neither the others nor the calls of the process take away. -/
structure Stays (i : Nat) (w w' : World) : Prop where
  lock : w.lock = some i → w'.lock = some i
  published : ∀ kind, ∀ e ∈ (w.dir kind).published, e ∈ (w'.dir kind).published
  effect : ∀ r, w.Known r → Effect w.store r → Effect w'.store r
  attempts : ∀ x : Attempt, x.process = i → x ∈ w.attempts → x ∈ w'.attempts
  sent : ∀ (id : Nat) (r : ClaudeRequest), w.sent[id]? = some r → w'.sent[id]? = some r

theorem Rely.stays (h : Rely i w w') : Stays i w w' :=
  ⟨fun hl => (h.lock hl).1, h.published, h.effect, fun x hx => (h.attempts x hx).mpr, h.sent⟩

theorem Stays.trans (h : Stays i w w') (h' : Stays i w' w'') : Stays i w w'' where
  lock hl := h'.lock (h.lock hl)
  published kind e he := h'.published kind e (h.published kind e he)
  effect r hk he := h'.effect r (hk.mono h.published) (h.effect r hk he)
  attempts x hx hmem := h'.attempts x hx (h.attempts x hx hmem)
  sent id r hr := h'.sent id r (h.sent id r hr)

def scope (F : Formats) (i : Nat) : Scope (pact F) i where
  stays := Stays i
  trans _ _ _ := Stays.trans
  rely _ _ := Rely.stays

/-! One call. -/

def Call.unlocks : Call → Bool
  | .unlock _ => true
  | _ => false

/-- What may be called at any time, and changes nothing. -/
def Call.quiet : Call → Bool
  | .readCounter _ | .newId | .list _ | .read _ _ | .await _ | .late | .now => true
  | .haltStartup _ _ | .retain _ _ _ => true
  | _ => false

theorem lock_perform (hc : c.unlocks = false) (hl : w.lock = some i) :
    (w.perform F a c).2.lock = some i := by
  cases c with
  | unlock j => cases hc
  | _ =>
    simp only [World.perform]
    first
    | exact hl
    | simpa using hl
    | (split <;> simp_all)

theorem attempts_perform {x : Attempt} (hx : x ∈ w.attempts) :
    x ∈ (w.perform F a c).2.attempts := by
  cases c with
  | appendEvent process event now =>
    simp only [World.perform]
    split
    · exact List.mem_cons_of_mem _ hx
    · exact hx
  | _ =>
    simp only [World.perform]
    first
    | exact hx
    | simpa using hx
    | (split <;> simpa using hx)

theorem Sound.stays_perform (hw : Sound F w) (hd : Duty F i w c) (hf : Fresh w a c)
    (hc : c.unlocks = false) : Stays i w (w.perform F a c).2 := by
  -- What another process may rely on holds for this one too.
  have hrely : Rely (i + 1) w (w.perform F a c).2 := (hw.perform hd hf).2 (i + 1) (by omega)
  exact ⟨lock_perform hc, hrely.published, hrely.effect, fun _ _ => attempts_perform, hrely.sent⟩

/-- The call was answered with `x` in a world that the others left, and they left `w'` since. -/
def Called (F : Formats) (i : Nat) (w : World) (c : Call) (x : c.Reply) (w' : World) : Prop :=
  ∃ found a left, Rely i w found ∧ Sound F found ∧ found.perform F a c = (.ok x, left) ∧
    Sound F left ∧ Rely i left w'

/-- The rule for one call: it is due whatever the others do first. -/
theorem call_leaves {Q : c.Reply → World → Prop} (hc : c.unlocks = false)
    (hd : ∀ w', Rely i w w' → Sound F w' → Duty F i w' c)
    (ok : ∀ x w', Sound F w' → Called F i w c x w' → Q x w') :
    Leaves (scope F i) (call F c) Q w := by
  refine Runs.ask fun w₁ hr₁ hw₁ a ha => ?_
  have hduty : Duty F i w₁ c := hd w₁ hr₁ hw₁
  have houtside : Sound F (w₁.outside a.moves) ∧ Rely i w₁ (w₁.outside a.moves) :=
    Sound.outside hw₁ ha.foreign
  have hrely : Rely i w (w₁.outside a.moves) := Rely.trans hr₁ houtside.2
  have hduty' : Duty F i (w₁.outside a.moves) c := hd _ hrely houtside.1
  have hstays := hrely.stays.trans (houtside.1.stays_perform hduty' ha.fresh hc)
  have hsound := (houtside.1.perform hduty' ha.fresh).1
  refine ⟨hduty, fun w₃ hr₃ hw₃ => ?_⟩
  change After (fun x w' => Stays i w w' ∧ Q x w') (fun _ w' => Stays i w w') (w₁.exec F a c).1 w₃
  change Rely i (w₁.exec F a c).2 w₃ at hr₃
  rcases exec_cases (F := F) (w := w₁) (a := a) (c := c) with heq | ⟨e, he, -, heq | ⟨-, heq⟩⟩
  · rw [heq] at hr₃ ⊢
    cases hresult : ((w₁.outside a.moves).perform F a c).1 with
    | error e => exact hstays.trans hr₃.stays
    | ok y =>
      have hcalled : Called F i w c y w₃ :=
        ⟨_, a, _, hrely, houtside.1, Prod.ext hresult rfl, hsound, hr₃⟩
      exact ⟨hstays.trans hr₃.stays, ok y w₃ hw₃ hcalled⟩
  · rw [heq] at hr₃
    rw [he]
    exact hrely.stays.trans hr₃.stays
  · rw [heq] at hr₃
    rw [he]
    exact hstays.trans hr₃.stays

theorem quiet_leaves (hc : c.quiet = true) :
    Leaves (scope F i) (call F c) (fun _ _ => True) w := by
  have hunlocks : c.unlocks = false := by cases c <;> first | rfl | cases hc
  refine call_leaves hunlocks (fun w' _ _ => ?_) fun _ _ _ _ => trivial
  cases c <;> first | exact trivial | cases hc

theorem quietThen {α : Type} {f : c.Reply → Routine F α} {T : α → World → Prop}
    (hc : c.quiet = true)
    (ok : ∀ x w', Sound F w' → Stays i w w' → Leaves (scope F i) (f x) T w') :
    Leaves (scope F i) (call F c >>= f) T w :=
  (quiet_leaves hc).bind fun x w' hw' hs' _ => ok x w' hw' hs'

/-! Records that were filed. -/

/-- The record of this name was published with this request, or with the one it replays. -/
def World.Filed (w : World) (kind : Kind) (name : Name) (r : ClaudeRequest) : Prop :=
  ∃ e ∈ (w.dir kind).published, e.name = name ∧ (r = e.request ∨ r = e.request.replay)

theorem World.Filed.known (h : w.Filed kind name r) : w.Known r := by
  obtain ⟨e, he, -, hr⟩ := h
  exact ⟨kind, e, he, hr⟩

theorem World.Filed.stays (h : w.Filed kind name r) (hs : Stays i w w') :
    w'.Filed kind name r := by
  obtain ⟨e, he, hname⟩ := h
  exact ⟨e, hs.published kind e he, hname⟩

/-- The file of a record may go once its request had its effect. -/
theorem Sound.removes (hw : Sound F w) (hl : w.lock = some i) (hf : w.Filed kind name r)
    (he : Effect w.store r) : Duty F i w (.remove i kind name) := by
  refine ⟨hl, fun e hfile hname => ?_⟩
  obtain ⟨e₀, he₀, hname₀, hr⟩ := hf
  have hd := hw.dirs kind
  obtain rfl : e = e₀ := hd.eq_of_name (hd.files.subset hfile) he₀ (hname.trans hname₀.symm)
  rcases hr with rfl | rfl
  · exact he
  · exact effect_replay.mp he

theorem remove_leaves (hl : w.lock = some i) (hf : w.Filed kind name r)
    (he : Effect w.store r) :
    Leaves (scope F i) (call F (.remove i kind name)) (fun _ _ => True) w := by
  refine call_leaves rfl (fun w' hr hw' => ?_) fun _ _ _ _ => trivial
  exact hw'.removes (hr.lock hl).1 (hf.stays hr.stays) (hr.effect r hf.known he)

/-! Helpers. -/

/-- The number is counted and above all that were published, and nobody else may publish. -/
structure Reserved (i : Nat) (kind : Kind) (seq : Nat) (w : World) : Prop where
  lock : w.lock = some i
  counted : seq ≤ (w.dir kind).counter.getD 0
  above : ∀ e ∈ (w.dir kind).published, e.name.seq < seq

theorem Reserved.rely {seq : Nat} (h : Reserved i kind seq w) (hr : Rely i w w') :
    Reserved i kind seq w' := by
  obtain ⟨hl, hd⟩ := hr.lock h.lock
  exact ⟨hl, by rw [hd]; exact h.counted, by rw [hd]; exact h.above⟩

theorem publish_leaves (hl : w.lock = some i)
    (hv : ∀ name : Name, name.seq < 2 ^ 64 → Entry.Valid ⟨name, ⟨1, r⟩⟩ kind) :
    Leaves (scope F i) (publish F kind r) (fun name w' => w'.Filed kind name r) w := by
  refine Leaves.checkThen fun _ => ?_
  have hread : Leaves (scope F i) (call F (.readCounter kind))
      (fun counter w' => w'.lock = some i ∧ (w'.dir kind).counter = counter) w := by
    refine call_leaves rfl (fun _ _ _ => trivial) fun counter w' _ hcalled => ?_
    obtain ⟨found, a, left, hr, -, hperform, -, hr'⟩ := hcalled
    cases hperform
    obtain ⟨hl', hd'⟩ := hr'.lock (hr.lock hl).1
    exact ⟨hl', by rw [hd']⟩
  refine hread.bind fun counter w₁ hw₁ _ hcount => ?_
  obtain ⟨hl₁, hcounter⟩ := hcount
  refine Leaves.checkThen fun hseq => ?_
  have hwrite : Leaves (scope F i) (call F (.writeCounter kind (counter.getD 0 + 1)))
      (fun _ w' => Reserved i kind (counter.getD 0 + 1) w') w₁ := by
    refine call_leaves rfl (fun w' hr _ => ?_) fun _ w' _ hcalled => ?_
    · obtain ⟨hl', hd'⟩ := hr.lock hl₁
      refine ⟨hl', ?_⟩
      rw [hd', hcounter]
      omega
    · obtain ⟨found, a, left, hr, hfound, hperform, -, hr'⟩ := hcalled
      cases hperform
      obtain ⟨hl', hd'⟩ := hr.lock hl₁
      refine Reserved.rely ⟨by simpa using hl', by simp, fun e he => ?_⟩ hr'
      rw [dir_setDir, if_pos rfl] at he
      have hcounted := (hfound.dirs kind).counted e he
      rw [hd', hcounter] at hcounted
      omega
  refine hwrite.bind fun _ w₂ _ _ hreserved => ?_
  have hid : Leaves (scope F i) (call F .newId)
      (fun _ w' => Reserved i kind (counter.getD 0 + 1) w') w₂ := by
    refine call_leaves rfl (fun _ _ _ => trivial) fun _ w' _ hcalled => ?_
    obtain ⟨found, a, left, hr, -, hperform, -, hr'⟩ := hcalled
    cases hperform
    exact (hreserved.rely hr).rely hr'
  refine hid.bind fun id w₃ _ _ hreserved => ?_
  have hrecord : Leaves (scope F i)
      (call F (.writeRecord kind ⟨⟨counter.getD 0 + 1, id⟩, ⟨1, r⟩⟩))
      (fun _ w' => w'.Filed kind ⟨counter.getD 0 + 1, id⟩ r) w₃ := by
    refine call_leaves rfl (fun w' hr _ => ?_) fun _ w' _ hcalled => ?_
    · have h := hreserved.rely hr
      exact ⟨h.lock, hv _ (by simpa using hseq), h.counted, h.above⟩
    · obtain ⟨found, a, left, hr, -, hperform, -, hr'⟩ := hcalled
      cases hperform
      refine ⟨⟨⟨counter.getD 0 + 1, id⟩, ⟨1, r⟩⟩, hr'.published kind _ ?_, rfl, .inl rfl⟩
      rw [dir_setDir, if_pos rfl]
      exact List.mem_cons_self
  refine hrecord.bind fun _ w₄ _ _ hfiled => ?_
  exact Leaves.pure fun w' hr _ => hfiled.stays hr.stays

/-- A reply that says committed comes after the effect. -/
theorem exchange_leaves (hk : w.Known r) :
    Leaves (scope F i) (exchange F r)
      (fun outcome w' => outcome = .reply true → Effect w'.store r) w := by
  have hpost : Leaves (scope F i) (call F (.post r))
      (fun (id : Nat) w' => w'.sent[id]? = some r) w := by
    refine call_leaves rfl (fun w' hr _ => hk.mono hr.published) ?_
    intro id w' _ hcalled
    obtain ⟨found, a, left, hr, -, hperform, -, hr'⟩ := hcalled
    cases hperform
    exact hr'.sent _ _ List.getElem?_concat_length
  refine hpost.bind fun id w₁ hw₁ hs₁ hsent => ?_
  refine call_leaves rfl (fun _ _ _ => trivial) fun outcome w' _ hcalled hok => ?_
  obtain ⟨found, a, left, hr, hfound, hperform, -, hr'⟩ := hcalled
  have hk' : found.Known r := (hk.mono hs₁.published).mono hr.published
  simp only [World.perform] at hperform
  split at hperform
  · rename_i hlookup
    cases hperform
    obtain ⟨l₁, l₂, heq, -⟩ := List.lookup_eq_some_iff.mp hlookup
    have hmem : (id, outcome) ∈ found.replies :=
      heq ▸ List.mem_append_right l₁ List.mem_cons_self
    obtain ⟨q, hq, he⟩ := hfound.replies (id, outcome) hmem hok
    obtain rfl : q = r := Option.some.inj (hq.symm.trans (hr.sent id r hsent))
    exact hr'.effect q hk' he
  · cases hperform

theorem sendLive_leaves (hl : w.lock = some i) (hf : w.Filed .hooks name r) :
    Leaves (scope F i) (sendLive F i r name) (fun _ _ => True) w := by
  refine (exchange_leaves hf.known).bind fun outcome w₁ _ hs₁ heffect => ?_
  have hquiet : Leaves (scope F i) (pure () : Routine F Unit) (fun _ _ => True) w₁ :=
    Leaves.pure fun _ _ _ => trivial
  cases outcome with
  | refused => exact hquiet
  | reply committed =>
    cases committed with
    | true => exact remove_leaves (hs₁.lock hl) (hf.stays hs₁) (heffect rfl)
    | false => exact hquiet

/-- Who lets the lock go did not have it at the start. -/
theorem unlock_runs {w₀ : World} (hs : Stays i w₀ w) (hl : w₀.lock ≠ some i) :
    Runs (pact F) i (call F (.unlock i)) (After (fun _ w' => Stays i w₀ w') fun _ _ => False)
      w := by
  refine Runs.ask fun w₁ hr₁ hw₁ a ha => ⟨rfl, fun w₃ hr₃ hw₃ => ?_⟩
  change Rely i (w₁.exec F a (.unlock i)).2 w₃ at hr₃
  have houtside : Rely i w₁ (w₁.outside a.moves) := (Sound.outside hw₁ ha.foreign).2
  have hfound := (hs.trans hr₁.stays).trans houtside.stays
  have hcertain : w₁.exec F a (.unlock i) = (w₁.outside a.moves).perform F a (.unlock i) := by
    rcases exec_cases (F := F) (w := w₁) (a := a) (c := .unlock i) with heq | ⟨-, -, hno, -⟩
    · exact heq
    · cases hno
  rw [hcertain] at hr₃
  change After _ _ (w₁.exec F a (.unlock i)).1 w₃
  rw [hcertain]
  change Rely i (if (w₁.outside a.moves).lock = some i then
    { w₁.outside a.moves with lock := none } else w₁.outside a.moves) w₃ at hr₃
  change Stays i w₀ w₃
  split_ifs at hr₃
  · exact ⟨fun h => absurd h hl, fun kind e he => hr₃.published kind e (hfound.published kind e he),
      fun r hk he => hr₃.effect r (hk.mono hfound.published) (hfound.effect r hk he),
      fun x hx hmem => (hr₃.attempts x hx).mpr (hfound.attempts x hx hmem),
      fun id r hr => hr₃.sent id r (hfound.sent id r hr)⟩
  · exact hfound.trans hr₃.stays

/-- A program under the lock lets it go. -/
theorem locked_leaves {α : Type} {p : Routine F α} {Q : α → World → Prop}
    (hp : ∀ w', Sound F w' → Stays i w w' → w'.lock = some i → Leaves (scope F i) p Q w') :
    Leaves (scope F i) (locked F i p) (fun _ _ => True) w := by
  have hlock : Leaves (scope F i) (call F (.lock i))
      (fun _ w' => w'.lock = some i ∧ w.lock ≠ some i) w := by
    refine call_leaves rfl (fun _ _ _ => rfl) fun _ w' _ hcalled => ?_
    obtain ⟨found, a, left, hr, -, hperform, -, hr'⟩ := hcalled
    simp only [World.perform] at hperform
    split at hperform
    · rename_i hfree
      cases hperform
      refine ⟨(hr'.lock rfl).1, fun hl => ?_⟩
      rw [(hr.lock hl).1] at hfree
      cases hfree
    · cases hperform
  refine hlock.andThen (fun _ w₁ hw₁ hs₁ hheld => ?_) fun _ _ _ hs => hs
  obtain ⟨hl₁, hl⟩ := hheld
  refine ((hp w₁ hw₁ hs₁ hl₁).attempt).andThen (fun result w₂ _ hs₂ _ => ?_)
    fun _ _ _ hs₂ => hs₁.trans hs₂
  refine (unlock_runs (hs₁.trans hs₂) hl).bind (fun _ w₃ _ hs₃ w₄ hr₄ _ => ?_)
    fun _ _ _ hno => hno.elim
  have hs₄ : Stays i w w₄ := Stays.trans hs₃ (Rely.stays hr₄)
  cases result with
  | ok a => exact ⟨hs₄, trivial⟩
  | error e => exact hs₄

theorem hook_leaves {requestId instanceId : String} :
    Leaves (scope F i) (hook F i requestId instanceId data) (fun _ _ => True) w := by
  let r : ClaudeRequest := ⟨requestId, instanceId, .hook { data with replayed := false }⟩
  have hvalid (name : Name) (h : name.seq < 2 ^ 64) : Entry.Valid ⟨name, ⟨1, r⟩⟩ .hooks :=
    ⟨h, rfl, rfl, Nat.zero_le 1⟩
  refine Leaves.discard (locked_leaves (Q := fun _ _ => True) fun w₁ _ _ hl₁ => ?_)
  refine (publish_leaves hl₁ hvalid).bind fun name w₂ _ hs₂ hfiled => ?_
  exact (sendLive_leaves (hs₂.lock hl₁) hfiled).attempt.mono fun _ _ _ _ _ => trivial

/-- A record that can be read is replayed as it was published. -/
theorem readRecord_leaves {version unfit : String} :
    Leaves (scope F i) (readRecord F version unfit kind name)
      (fun r w' => w'.Filed kind name r) w := by
  have hread : Leaves (scope F i) (call F (.read kind name))
      (fun (p : PendingRecord) w' => w'.Filed kind name p.request.replay) w := by
    refine call_leaves rfl (fun _ _ _ => trivial) fun p w' _ hcalled => ?_
    obtain ⟨found, a, left, hr, hfound, hperform, -, hr'⟩ := hcalled
    simp only [World.perform] at hperform
    split at hperform
    · rename_i e hfind
      cases hperform
      have hname : e.name = name := by simpa using List.find?_some hfind
      have hpublished := (hfound.dirs kind).files.subset (List.mem_of_find?_eq_some hfind)
      exact ⟨e, hr'.published kind e hpublished, hname, .inr rfl⟩
    · cases hperform
  refine hread.bind fun p w₁ _ _ hfiled => ?_
  refine Leaves.checkThen fun _ => Leaves.checkThen fun _ => ?_
  exact Leaves.pure fun w' hr _ => hfiled.stays hr.stays

/-- A replay keeps the lock from the first record to the last. -/
theorem replayAll_leaves {names : List Name} {refused : Bool} (hl : w.lock = some i) :
    Leaves (scope F i) (replayAll F i kind names refused) (fun _ _ => True) w := by
  induction names generalizing w refused with
  | nil => exact Leaves.check
  | cons name rest ih =>
    refine quietThen rfl fun late w₁ _ hs₁ => ?_
    cases late with
    | true => exact Leaves.check
    | false =>
      refine readRecord_leaves.bind fun r w₂ _ hs₂ hfiled => ?_
      refine (exchange_leaves hfiled.known).bind fun outcome w₃ _ hs₃ heffect => ?_
      have hl₃ : w₃.lock = some i := hs₃.lock (hs₂.lock (hs₁.lock hl))
      cases outcome with
      | refused => exact ih hl₃
      | reply committed =>
        refine Leaves.checkThen fun hcommitted => ?_
        subst hcommitted
        refine (remove_leaves hl₃ (hfiled.stays hs₃) (heffect rfl)).bind fun _ w₄ _ hs₄ _ => ?_
        exact ih (hs₄.lock hl₃)

theorem replay_leaves :
    Leaves (scope F i) (replay F i kind) (fun _ _ => True) w := by
  refine locked_leaves (Q := fun _ _ => True) fun w₁ _ _ hl₁ => ?_
  refine quietThen rfl fun names w₂ _ hs₂ => ?_
  exact replayAll_leaves (hs₂.lock hl₁)

/-- Every receipt is published alone. -/
theorem ack_leaves {instanceId : String} {receipts : List Receipt} (hw : Sound F w) :
    Leaves (scope F i) (ack F i instanceId receipts) (fun _ _ => True) w := by
  refine Leaves.checkThen fun _ => ?_
  refine (Leaves.forEach hw fun x _ w₁ _ _ => ?_).bind fun _ _ _ _ _ => replay_leaves
  refine quietThen rfl fun requestId w₂ _ _ => ?_
  have hvalid (name : Name) (h : name.seq < 2 ^ 64) :
      Entry.Valid ⟨name, ⟨1, ⟨requestId, instanceId, .ack [x]⟩⟩⟩ .acks :=
    ⟨h, rfl, rfl, le_rfl⟩
  exact (locked_leaves fun w₃ _ _ hl₃ => publish_leaves hl₃ hvalid).discard

/-! The daemon. -/

/-- Routing changes only after an append that inserted the event. -/
theorem routeHook_leaves {inserted : Bool} (now : Nat)
    (h : inserted = true → (⟨i, data.eventId, true⟩ : Attempt) ∈ w.attempts) :
    Leaves (scope F i) (routeHook F i data inserted now) (fun _ _ => True) w := by
  have hduty : inserted = true → ∀ w', Rely i w w' →
      (⟨i, data.eventId, true⟩ : Attempt) ∈ w'.attempts :=
    fun hi w' hr => (hr.attempts _ rfl).mpr (h hi)
  have hset (hi : inserted = true) :
      Leaves (scope F i) (call F (.route i data)) (fun _ _ => True) w :=
    call_leaves rfl (fun w' hr _ => ⟨rfl, hduty hi w' hr⟩) fun _ _ _ _ => trivial
  have hrevoke (hi : inserted = true) :
      Leaves (scope F i) (call F (.revokeRouting i data)) (fun _ _ => True) w :=
    call_leaves rfl (fun w' hr _ => ⟨rfl, hduty hi w' hr⟩) fun _ _ _ _ => trivial
  unfold routeHook
  cases inserted with
  | true =>
    simp only [Bool.not_true, Bool.or_false, Bool.true_and]
    generalize (data.replayed || _) = old
    cases old with
    | false => exact hset rfl
    | true =>
      cases routes data.event with
      | true => exact hrevoke rfl
      | false => exact Leaves.pure fun _ _ _ => trivial
  | false =>
    simp only [Bool.not_false, Bool.or_true, Bool.true_or, Bool.false_and]
    exact Leaves.pure fun _ _ _ => trivial

theorem executeHook_leaves (hk : w.Known r) (hop : r.operation = .hook data) :
    Leaves (scope F i) (executeHook F i r.instanceId data) (fun _ w' => Effect w'.store r) w := by
  refine quietThen rfl fun now w₁ _ hs₁ => ?_
  refine Leaves.checkThen fun hkind => Leaves.orRaiseThen fun native hparsed => ?_
  refine Leaves.checkThen fun hidentified => ?_
  have hk₁ : w₁.Known r := hk.mono hs₁.published
  have happend : Leaves (scope F i) (call F (.appendEvent i (data.toEvent r.instanceId) now))
      (fun (inserted : Bool) w' => Effect w'.store r ∧
        (inserted = true → (⟨i, data.eventId, true⟩ : Attempt) ∈ w'.attempts)) w₁ := by
    refine call_leaves rfl (fun w' hr _ => ?_) fun inserted w' _ hcalled => ?_
    · exact ⟨rfl, r, data, hk₁.mono hr.published, hop, rfl, hkind, native, hparsed, hidentified⟩
    · obtain ⟨found, a, left, hr, -, hperform, -, hr'⟩ := hcalled
      simp only [World.perform] at hperform
      split at hperform
      · rename_i s' _ hs'
        cases hperform
        have hstored : ∃ old, s'.events.get data.eventId = some old := by
          rcases (Store.appendDriverEvent_eq_ok hs').2 with ⟨-, rfl, old, hold, -⟩ | ⟨-, -, rfl⟩
          · exact ⟨old, hold⟩
          · exact ⟨data.toEvent r.instanceId, Table.get_put_self⟩
        have he : Effect s' r := by
          constructor
          · intro id hid
            simp only [ClaudeRequest.eventId, hop, Option.some.injEq] at hid
            exact hid ▸ hstored
          · intro x hx
            simp only [ClaudeRequest.receipts, hop] at hx
            cases hx
        refine ⟨hr'.effect r (hk₁.mono hr.published) he, fun hi => ?_⟩
        exact (hr'.attempts _ rfl).mpr (hi ▸ List.mem_cons_self)
      · cases hperform
  refine happend.bind fun inserted w₂ _ hs₂ hdone => ?_
  obtain ⟨heffect, hattempt⟩ := hdone
  have hk₂ : w₂.Known r := hk₁.mono hs₂.published
  have hhalt : Leaves (scope F i) (haltStartup F r.instanceId data inserted) (fun _ _ => True)
      w₂ := by
    unfold haltStartup
    cases inserted && halts data.event with
    | true => exact quiet_leaves (c := .haltStartup r.instanceId data.sessionId) rfl
    | false => exact Leaves.pure fun _ _ _ => trivial
  refine hhalt.bind fun _ w₃ _ hs₃ _ => ?_
  have hroute := routeHook_leaves (F := F) now fun hi => hs₃.attempts _ rfl (hattempt hi)
  refine hroute.mono fun _ w' _ hs' _ => ?_
  exact hs'.effect r (hk₂.mono hs₃.published) (hs₃.effect r hk₂ heffect)

theorem executeAck_leaves {receipts : List Receipt} (hw : Sound F w) (hk : w.Known r)
    (hop : r.operation = .ack receipts) :
    Leaves (scope F i) (executeAck F r.instanceId receipts) (fun _ w' => Effect w'.store r) w := by
  have hreceipts : r.receipts = receipts := by simp [ClaudeRequest.receipts, hop]
  have hsingle : receipts.length ≤ 1 := by
    obtain ⟨kind, e, he, hr⟩ := hk
    have h := ((hw.dirs kind).valid e he).single
    rw [← hreceipts]
    rcases hr with rfl | rfl
    · exact h
    · simpa using h
  refine quietThen rfl fun now w₁ _ hs₁ => Leaves.checkThen fun hsome => ?_
  have hk₁ : w₁.Known r := hk.mono hs₁.published
  cases receipts with
  | nil => cases hsome
  | cons x rest =>
    obtain rfl : rest = [] := List.length_eq_zero_iff.mp (by
      rw [List.length_cons] at hsingle
      omega)
    have hack : Leaves (scope F i) (call F (.acknowledge (x.ack r.instanceId) now))
        (fun _ w' => Effect w'.store r) w₁ := by
      refine call_leaves rfl (fun w' hr _ => ?_) fun result w' _ hcalled => ?_
      · exact ⟨r, hk₁.mono hr.published, x, by simp [hreceipts], rfl⟩
      · obtain ⟨found, a, left, hr, -, hperform, -, hr'⟩ := hcalled
        have heffect {s' : Store} (hc : Confirmed s' (x.ack r.instanceId)) : Effect s' r := by
          constructor
          · intro id hid
            simp [ClaudeRequest.eventId, hop] at hid
          · intro y hy
            rw [hreceipts] at hy
            exact List.mem_singleton.mp hy ▸ hc
        have hk' : found.Known r := hk₁.mono hr.published
        simp only [World.perform] at hperform
        split at hperform
        · rename_i s' hs'
          cases hperform
          exact hr'.effect r hk' (heffect (confirmed_of_acknowledge hs').1)
        · rename_i s' hs'
          cases hperform
          exact hr'.effect r hk' (heffect (confirmed_of_acknowledge hs').1)
        · cases hperform
    refine Leaves.bind (Q := fun _ w' => Effect w'.store r) ?_ fun _ w₂ _ hs₂ he => ?_
    · refine hack.bind fun _ w₂ _ hs₂ he => Leaves.pure fun w' hr _ => ?_
      exact hr.effect r (hk₁.mono hs₂.published) he
    · exact Leaves.pure fun w' hr _ => hr.effect r (hk₁.mono hs₂.published) he

theorem execute_leaves (hw : Sound F w) (hk : w.Known r) :
    Leaves (scope F i) (execute F i r) (fun _ w' => Effect w'.store r) w := by
  cases hop : r.operation with
  | ack receipts =>
    simp only [execute, hop]
    exact executeAck_leaves hw hk hop
  | hook hook =>
    simp only [execute, hop]
    exact executeHook_leaves hk hop

theorem handle_leaves {request : Nat} (hw : Sound F w) (hr : w.sent[request]? = some r) :
    Leaves (scope F i) (handle F i request r) (fun _ _ => True) w := by
  have hk : w.Known r := hw.sent r (List.mem_of_getElem? hr)
  refine (execute_leaves hw hk).attempt.bind fun result w₁ _ hs₁ heffect => ?_
  refine call_leaves rfl (fun w' hr' _ hok => ?_) fun _ _ _ _ => trivial
  cases result with
  | error e => cases hok
  | ok u =>
    have he : Effect w₁.store r := heffect u rfl
    exact ⟨r, hr'.sent _ _ (hs₁.sent _ _ hr), hr'.effect r (hk.mono hs₁.published) he⟩

theorem readAll_leaves {names : List Name} :
    Leaves (scope F i) (readAll F i kind names)
      (fun records w' => ∀ p ∈ records, w'.Filed kind p.1 p.2) w := by
  induction names generalizing w with
  | nil => exact Leaves.pure fun _ _ _ p hp => by cases hp
  | cons name rest ih =>
    refine readRecord_leaves.attempt.bind fun read w₁ _ _ hfiled => ?_
    cases read with
    | error e =>
      exact quietThen rfl fun _ _ _ _ => ih
    | ok r =>
      refine ih.bind fun later w₂ _ hs₂ hlater => Leaves.pure fun w' hr _ p hp => ?_
      rcases List.mem_cons.mp hp with rfl | hp
      · exact ((hfiled r rfl).stays hs₂).stays hr.stays
      · exact (hlater p hp).stays hr.stays

theorem applyPending_leaves {pending : Name × ClaudeRequest} (hw : Sound F w)
    (hl : w.lock = some i) (hf : w.Filed kind pending.1 pending.2) :
    Leaves (scope F i) (applyPending F i kind pending) (fun _ _ => True) w := by
  refine (execute_leaves hw hf.known).attempt.bind fun result w₁ _ hs₁ heffect => ?_
  cases result with
  | error e => exact quiet_leaves rfl
  | ok u =>
    have hremove := remove_leaves (F := F) (hs₁.lock hl) (hf.stays hs₁) (heffect u rfl)
    exact hremove.attempt.discard

/-- A pass reads and applies under the lock. -/
theorem ingest_runs {after : Option Name} :
    Runs (pact F) i (ingest F i kind after) (fun _ _ => True) w := by
  have hlock : Leaves (scope F i) (call F (.tryLock i))
      (fun (held : Bool) w' => held = true → w'.lock = some i) w := by
    refine call_leaves rfl (fun _ _ _ => rfl) fun held w' _ hcalled hheld => ?_
    obtain ⟨found, a, left, hr, -, hperform, -, hr'⟩ := hcalled
    simp only [World.perform] at hperform
    split at hperform
    · cases hperform
      exact (hr'.lock rfl).1
    · cases hperform
      cases hheld
  refine hlock.andThen (fun held w₁ _ _ hheld => ?_) fun _ _ _ _ => trivial
  refine Runs.checkThen (fun hb => ?_) fun _ _ _ _ => trivial
  have hl₁ : w₁.lock = some i := hheld hb
  have hlist : Leaves (scope F i) (call F (.list kind)) (fun _ _ => True) w₁ :=
    quiet_leaves rfl
  refine hlist.andThen (fun names w₂ _ hs₂ _ => ?_) fun _ _ _ _ => trivial
  refine readAll_leaves.andThen (fun records w₃ hw₃ hs₃ hfiled => ?_) fun _ _ _ _ => trivial
  have hl₃ : w₃.lock = some i := hs₃.lock (hs₂.lock hl₁)
  have hall : Leaves (scope F i) (forEach (applyPending F i kind) records) (fun _ _ => True) w₃ :=
    Leaves.forEach hw₃ fun p hp w₄ hw₄ hs₄ =>
      applyPending_leaves hw₄ (hs₄.lock hl₃) ((hfiled p hp).stays hs₄)
  refine hall.andThen (fun _ w₅ _ _ _ => ?_) fun _ _ _ _ => trivial
  exact Runs.ask fun _ _ _ _ _ => ⟨rfl, fun _ _ _ => trivial⟩

end Agend.Spool
