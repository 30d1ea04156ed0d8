import Agend.Library.Except
import Agend.Runtime.Programs
import Agend.Runtime.Startup

/-! A key of a launch is typed once, unless it was refused before anything was written. -/
namespace Agend.Runtime

open Library

/-- What a call may do to the row of a launch. -/
inductive KeyTurn (s : Startups) (c : StartupCall) (o : Except String StartupReply) :
    StartupRow → StartupRow → Prop
  | same (r : StartupRow) : KeyTurn s c o r r
  | halted (r : StartupRow) (manual : Bool) : KeyTurn s c o r { r with manual, halted := true }
  | reserved {r : StartupRow} {key : ClaudeStartupKey} (hc : c = .reserve key)
      (ho : o = .ok (.bool true)) (hopen : r.Open key) : KeyTurn s c o r (r.reserved key)
  | finished {r : StartupRow} {key : ClaudeStartupKey} {written : Bool} (hc : c = .finish key written)
      (hr : s.rows.get key.startup.instanceId = some r) (hholds : r.Holds key) :
      KeyTurn s c o r (r.finished key written)

variable {s s' : Startups} {c : StartupCall} {o : Except String StartupReply} {id : String}
  {r r' x : StartupRow} {k key : ClaudeStartupKey} {launch : String} {w : Bool}

theorem KeyTurn.launchId (ht : KeyTurn s c o r r') : r'.launchId = r.launchId := by
  cases ht <;> rfl

/-- The row of an agent is one of a new launch, or what the call made of its row. -/
def KeyTurned (s : Startups) (c : StartupCall) (o : Except String StartupReply) (s' : Startups) : Prop :=
  ∀ id r', s'.rows.get id = some r' →
    c.launch = some r'.launchId ∨ ∃ r, s.rows.get id = some r ∧ KeyTurn s c o r r'

theorem turned_same (h : s'.rows = s.rows) : KeyTurned s c o s' :=
  fun _ r' hr' => Or.inr ⟨r', h ▸ hr', .same r'⟩

theorem turned_put (hr : s.rows.get id = some r) (hx : x.instanceId = r.instanceId)
    (ht : KeyTurn s c o r x) : KeyTurned s c o (s.put x) := by
  obtain rfl : x.instanceId = id := hx.trans (Table.get_eq_some.mp hr).2
  intro id r' hr'
  rw [Startups.put, Table.get_put] at hr'
  split_ifs at hr' with hid
  · obtain rfl := Option.some.inj hr'
    exact Or.inr ⟨r, hid ▸ hr, ht⟩
  · exact Or.inr ⟨r', hr', .same r'⟩

theorem turned_fresh (hnew : c.launch = some x.launchId) : KeyTurned s c o (s.put x) := by
  intro id r' hr'
  rw [Startups.put, Table.get_put] at hr'
  split_ifs at hr' with hid
  · obtain rfl := Option.some.inj hr'
    exact Or.inl hnew
  · exact Or.inr ⟨r', hr', .same r'⟩

theorem begin_turned {session : String} {b : Bool} (hnew : c.launch = some launch)
    (h : s.beginClaudeStartup id session launch = .ok (s', b)) : KeyTurned s c o s' := by
  unfold Startups.beginClaudeStartup at h
  split at h
  · obtain ⟨rfl, -⟩ := Prod.mk.inj (Except.ok.inj h)
    exact turned_fresh hnew
  · obtain ⟨-, h⟩ := require_bind_eq_ok.mp h
    obtain ⟨rfl, -⟩ := Prod.mk.inj (Except.ok.inj h)
    exact turned_fresh hnew

theorem manual_turned {session : String} (hnew : c.launch = some launch)
    (h : s.manualClaudeStartup id session launch = .ok s') : KeyTurned s c o s' := by
  obtain ⟨-, h⟩ := require_bind_eq_ok.mp h
  split at h
  · rename_i r hr
    obtain rfl := Except.ok.inj h
    exact turned_put hr rfl (.halted r true)
  · obtain rfl := Except.ok.inj h
    exact turned_fresh hnew

theorem halt_turned {session : String} : KeyTurned s c o (s.haltClaudeStartup id session) := by
  unfold Startups.haltClaudeStartup
  split
  · rename_i r hr
    split_ifs
    · exact turned_put hr rfl (.halted r r.manual)
    · exact turned_same rfl
  · exact turned_same rfl

/-- What a reservation that succeeds finds, and leaves. -/
theorem reserve_eq_true (h : s.reserveClaudeStartupKey key = .ok (s', true)) :
    ∃ r i, s.rows.get key.startup.instanceId = some r ∧
      s.base.instances.get key.startup.instanceId = some i ∧ r.Open key ∧
      i.pushes key.startup.session ∧ s.startupPaused key.startup.instanceId = .ok false ∧
      s' = s.put (r.reserved key) := by
  obtain ⟨-, h⟩ := require_bind_eq_ok.mp h
  obtain ⟨paused, hpaused, h⟩ := bind_eq_ok.mp h
  cases paused with
  | true => cases (Prod.mk.inj (Except.ok.inj h)).2
  | false =>
    simp only [Bool.false_eq_true, if_false] at h
    split at h
    · rename_i r i hr hi
      split_ifs at h with hboth
      · obtain ⟨rfl, -⟩ := Prod.mk.inj (Except.ok.inj h)
        exact ⟨r, i, hr, hi, hboth.1, hboth.2, hpaused, rfl⟩
      · cases (Prod.mk.inj (Except.ok.inj h)).2
    · cases (Prod.mk.inj (Except.ok.inj h)).2

/-- One that does not succeed changes nothing. -/
theorem reserve_eq_false (h : s.reserveClaudeStartupKey key = .ok (s', false)) : s' = s := by
  obtain ⟨-, h⟩ := require_bind_eq_ok.mp h
  obtain ⟨paused, -, h⟩ := bind_eq_ok.mp h
  cases paused with
  | true => exact (Prod.mk.inj (Except.ok.inj h)).1.symm
  | false =>
    simp only [Bool.false_eq_true, if_false] at h
    split at h
    · split_ifs at h
      · cases (Prod.mk.inj (Except.ok.inj h)).2
      · exact (Prod.mk.inj (Except.ok.inj h)).1.symm
    · exact (Prod.mk.inj (Except.ok.inj h)).1.symm

theorem finish_turned : KeyTurned s (.finish key w) o (s.finishClaudeStartupKey key w) := by
  unfold Startups.finishClaudeStartupKey
  split
  · rename_i r hr
    split_ifs with hholds
    · exact turned_put hr rfl (.finished rfl hr hholds)
    · exact turned_same rfl
  · exact turned_same rfl

theorem cascade_turned {op : Operation} {base : Store} : KeyTurned s c o (s.cascade op base) := by
  unfold Startups.cascade
  split
  · intro id r' hr'
    rw [Table.get_erase] at hr'
    split_ifs at hr'
    exact Or.inr ⟨r', hr', .same r'⟩
  · exact turned_same rfl

theorem exec_turned {reply : StartupReply} (h : s.exec c = .ok (s', reply)) :
    KeyTurned s c (.ok reply) s' := by
  cases c with
  | runtime op =>
    obtain ⟨⟨base, r⟩, -, he⟩ := map_eq_ok.mp h
    obtain ⟨rfl, -⟩ := Prod.mk.inj he
    exact cascade_turned
  | begin_ id session launch =>
    obtain ⟨⟨s1, b⟩, hb, he⟩ := map_eq_ok.mp h
    obtain ⟨rfl, -⟩ := Prod.mk.inj he
    exact begin_turned rfl hb
  | manual id session launch =>
    obtain ⟨s1, hm, he⟩ := map_eq_ok.mp h
    obtain ⟨rfl, -⟩ := Prod.mk.inj he
    exact manual_turned rfl hm
  | halt id session =>
    obtain ⟨rfl, -⟩ := Prod.mk.inj (Except.ok.inj h)
    exact halt_turned
  | reserve key =>
    obtain ⟨⟨s1, b⟩, hb, he⟩ := map_eq_ok.mp h
    obtain ⟨rfl, rfl⟩ := Prod.mk.inj he
    cases b with
    | true =>
      obtain ⟨r, i, hr, -, hopen, -, -, rfl⟩ := reserve_eq_true hb
      exact turned_put hr rfl (.reserved rfl rfl hopen)
    | false => exact turned_same (by rw [reserve_eq_false hb])
  | finish key w =>
    obtain ⟨rfl, -⟩ := Prod.mk.inj (Except.ok.inj h)
    exact finish_turned

theorem next_eq_some (hn : s.next c = some (s', o)) :
    (∀ l, c.launch = some l → l ∉ s.launches) ∧
      s' = { (s.call c).1 with launches := c.launch.toList ++ s.launches } ∧
      o = (s.call c).2 := by
  unfold Startups.next at hn
  split_ifs at hn with hnew
  obtain ⟨rfl, rfl⟩ := Prod.mk.inj (Option.some.inj hn)
  exact ⟨fun l hl hmem => hnew ⟨l, hl, hmem⟩, rfl, rfl⟩

theorem next_turned (hn : s.next c = some (s', o)) : KeyTurned s c o s' := by
  obtain ⟨-, rfl, rfl⟩ := next_eq_some hn
  unfold Startups.call
  cases he : s.exec c with
  | ok x => exact fun id r' hr' => exec_turned he id r' hr'
  | error text => exact turned_same rfl

/-- The row of a launch satisfies `P`, if the agent still has it. -/
def On (id launch : String) (P : StartupRow → Prop) (s : Startups) : Prop :=
  launch ∈ s.launches ∧ ∀ r, s.rows.get id = some r → r.launchId = launch → P r

/-- What every turn of the row keeps, or ends by `E`, is kept or ended by `E`. -/
theorem On.next {P : StartupRow → Prop} {E : Prop} (ho : On id launch P s)
    (hn : s.next c = some (s', o))
    (keep : ∀ r r', s.rows.get id = some r → P r → KeyTurn s c o r r' → P r' ∨ E) :
    On id launch P s' ∨ E := by
  by_cases hE : E
  · exact Or.inr hE
  obtain ⟨hnew, hs', -⟩ := next_eq_some hn
  refine Or.inl ⟨?_, fun r' hr' hl => ?_⟩
  · rw [hs']
    exact List.mem_append_right _ ho.1
  · rcases next_turned hn id r' hr' with hfresh | ⟨r, hr, ht⟩
    · exact absurd ho.1 (hl ▸ hnew _ hfresh)
    · exact (keep r r' hr (ho.2 r hr (ht.launchId.symm.trans hl)) ht).resolve_right hE

/-- Every row is of a launch that was generated. -/
def Known (s : Startups) : Prop :=
  ∀ id r, s.rows.get id = some r → r.launchId ∈ s.launches

theorem known_reachable (hr : startup.Reachable s) : Known s := by
  refine hr.invariant (fun s hs id r hr => ?_) fun s c s' o hk hn id r' hr' => ?_
  · have hmem := (Table.get_eq_some.mp hr).1
    rw [hs] at hmem
    cases hmem
  · obtain ⟨-, hs', -⟩ := next_eq_some hn
    rw [hs']
    rcases next_turned hn id r' hr' with hfresh | ⟨r, hr, ht⟩
    · exact List.mem_append_left _ (by rw [hfresh]; exact List.mem_singleton_self _)
    · rw [ht.launchId]
      exact List.mem_append_right _ (hk id r hr)

theorem get_reserved {prompt : String} (hp : prompt ≠ key.prompt) :
    (r.reserved key).keys.get prompt = r.keys.get prompt :=
  Table.get_put_of_ne (t := r.keys) (a := KeyRecord.mk key.prompt key.attempt false) hp

theorem get_finished {prompt : String} (hp : prompt ≠ key.prompt) :
    (r.finished key w).keys.get prompt = r.keys.get prompt := by
  cases w with
  | true =>
    exact Table.get_put_of_ne (t := r.keys) (a := KeyRecord.mk key.prompt key.attempt true) hp
  | false => exact Table.get_erase.trans (if_neg hp)

/-- An outstanding attempt stays so until it is finished. -/
theorem KeyTurn.holds (ht : KeyTurn s c o r r') (hr : s.rows.get k.startup.instanceId = some r)
    (hk : r.Holds k) : r'.Holds k ∨ ∃ w, c = .finish k w ∧ r' = r.finished k w := by
  obtain ⟨hsession, hlaunch, hgen, hget⟩ := hk
  cases ht with
  | same => exact Or.inl ⟨hsession, hlaunch, hgen, hget⟩
  | halted => exact Or.inl ⟨hsession, hlaunch, hgen, hget⟩
  | reserved hc ho hopen =>
    obtain ⟨-, -, -, -, -, hall⟩ := hopen
    cases hall _ (Table.get_eq_some.mp hget).1
  | @finished key w hc hr2 hholds =>
    obtain ⟨hsession2, hlaunch2, hgen2, hget2⟩ := hholds
    have hid : key.startup.instanceId = k.startup.instanceId :=
      (Table.get_eq_some.mp hr2).2.symm.trans (Table.get_eq_some.mp hr).2
    by_cases hp : k.prompt = key.prompt
    · refine Or.inr ⟨w, ?_⟩
      have hkey : key = k := by
        rw [hp, hget2] at hget
        have hrec := Option.some.inj hget
        obtain ⟨⟨id, session, launch⟩, generation, prompt, attempt⟩ := k
        obtain ⟨⟨id2, session2, launch2⟩, generation2, prompt2, attempt2⟩ := key
        simp only at hid hsession hlaunch hgen hp hsession2 hlaunch2 hgen2 hrec
        subst hid hp
        rw [hsession] at hsession2
        rw [hlaunch] at hlaunch2
        rw [hgen] at hgen2
        rw [hsession2, hlaunch2, Option.some.inj hgen2, (KeyRecord.mk.inj hrec).2.1]
      subst hkey
      exact ⟨hc, rfl⟩
    · exact Or.inl ⟨hsession, hlaunch, hgen, (get_finished hp).trans hget⟩

/-- The key of a prompt was typed. -/
def KeyTyped (prompt : String) (r : StartupRow) : Prop :=
  ∃ key ∈ r.keys.get prompt, key.written = true

/-- What was typed stays so. -/
theorem KeyTurn.written {prompt : String} (ht : KeyTurn s c o r r') (hw : KeyTyped prompt r) :
    KeyTyped prompt r' := by
  obtain ⟨record, hget, hwritten⟩ := hw
  have hget : r.keys.get prompt = some record := hget
  cases ht with
  | same => exact ⟨record, hget, hwritten⟩
  | halted => exact ⟨record, hget, hwritten⟩
  | @reserved key hc ho hopen =>
    obtain ⟨-, -, -, -, hnone, -⟩ := hopen
    have hne : prompt ≠ key.prompt := by
      rintro rfl
      cases hget.symm.trans hnone
    exact ⟨record, (get_reserved hne).trans hget, hwritten⟩
  | @finished key w hc hr hholds =>
    obtain ⟨-, -, -, hholds⟩ := hholds
    have hne : prompt ≠ key.prompt := by
      rintro rfl
      obtain rfl := Option.some.inj (hget.symm.trans hholds)
      cases hwritten
    exact ⟨record, (get_finished hne).trans hget, hwritten⟩

/-- The generation of a launch is chosen once. -/
theorem KeyTurn.generation {generation : String} (ht : KeyTurn s c o r r')
    (hg : r.generation = some generation) : r'.generation = some generation := by
  cases ht with
  | same => exact hg
  | halted => exact hg
  | reserved hc ho hopen =>
    obtain ⟨-, -, -, hor, -⟩ := hopen
    rcases hor with hnone | hsome
    · cases hg.symm.trans hnone
    · exact hsome.symm.trans hg
  | finished => exact hg

/-- A halted launch stays so. -/
theorem KeyTurn.stays_halted (ht : KeyTurn s c o r r') (hh : r.halted = true) : r'.halted = true := by
  cases ht with
  | same => exact hh
  | halted => rfl
  | reserved => exact hh
  | finished => exact hh

/-- A reservation of the key succeeds. -/
def Reserves (t : Transition Startups StartupCall (Except String StartupReply))
    (k : ClaudeStartupKey) : Prop :=
  t.event = .reserve k ∧ t.output = .ok (.bool true)

/-- The key is finished while its attempt is outstanding. -/
def Finishes (t : Transition Startups StartupCall (Except String StartupReply))
    (k : ClaudeStartupKey) (written : Bool) : Prop :=
  t.event = .finish k written ∧
    ∃ r, t.before.rows.get k.startup.instanceId = some r ∧ r.Holds k

/-- The launch is halted, taken over by the operator, or superseded. -/
def Stops (t : Transition Startups StartupCall (Except String StartupReply)) (id launch : String) :
    Prop :=
  (∃ r, t.before.rows.get id = some r ∧ r.launchId = launch ∧
    (t.event = .halt id r.sessionId ∨
      (∃ session new, t.event = .manual id session new ∧ t.output = .ok .unit) ∨
      ∃ session new, t.event = .begin_ id session new)) ∨
  t.before.rows.get id = none ∧
    ∃ session, t.event = .manual id session launch ∧ t.output = .ok .unit

/-- The keys of the launches, over a run. -/
structure TypedOnce (h : List (Transition Startups StartupCall (Except String StartupReply))) :
    Prop where
  /-- Between two reservations of a prompt the first attempt was refused, and never written. -/
  again : ∀ newer u mid t older k k', h = newer ++ u :: (mid ++ t :: older) → Reserves t k →
    Reserves u k' → k'.startup.instanceId = k.startup.instanceId →
    k'.startup.launch = k.startup.launch → k'.prompt = k.prompt →
    (∃ v ∈ mid, Finishes v k false) ∧ ∀ v ∈ mid, ¬ Finishes v k true
  /-- Nothing is reserved while an attempt is outstanding. -/
  outstanding : ∀ newer u mid t older k k', h = newer ++ u :: (mid ++ t :: older) → Reserves t k →
    Reserves u k' → k'.startup.instanceId = k.startup.instanceId →
    k'.startup.launch = k.startup.launch → ∃ v ∈ mid, ∃ written, Finishes v k written
  /-- A launch types into one generation. -/
  generation : ∀ newer u mid t older k k', h = newer ++ u :: (mid ++ t :: older) → Reserves t k →
    Reserves u k' → k'.startup.instanceId = k.startup.instanceId →
    k'.startup.launch = k.startup.launch → k'.generation = k.generation
  /-- Nothing is reserved for a launch that was stopped. -/
  stopped : ∀ newer u mid t older id launch k, h = newer ++ u :: (mid ++ t :: older) →
    Stops t id launch → Reserves u k → k.startup.instanceId = id → k.startup.launch ≠ launch
  /-- Nor during a switch that holds the agent, nor for another session or launch. -/
  allowed : ∀ t ∈ h, ∀ k, Reserves t k →
    (∀ record, t.before.base.switches.get k.startup.instanceId = some record →
      record.phase ≠ .prepared ∧ record.phase ≠ .rollbackPrepared) ∧
    (∃ i, t.before.base.instances.get k.startup.instanceId = some i ∧
      i.sessionId = some k.startup.session) ∧
    ∃ r, t.before.rows.get k.startup.instanceId = some r ∧ r.sessionId = k.startup.session ∧
      r.launchId = k.startup.launch
  /-- A finish of anything but an outstanding attempt changes nothing. -/
  stale : ∀ t ∈ h, ∀ k written, t.event = .finish k written → ¬ Finishes t k written →
    t.after = t.before

/-- What a reservation found, and what it left. -/
theorem reserves_step {t : Transition Startups StartupCall (Except String StartupReply)}
    (hn : startup.step t.before t.event t.after t.output) (ht : Reserves t k) :
    ∃ r i, t.before.rows.get k.startup.instanceId = some r ∧
      t.before.base.instances.get k.startup.instanceId = some i ∧ r.Open k ∧
      i.pushes k.startup.session ∧ t.before.startupPaused k.startup.instanceId = .ok false ∧
      t.after.rows = t.before.rows.put (r.reserved k) ∧ t.after.launches = t.before.launches := by
  obtain ⟨he, ho⟩ := ht
  have hn : t.before.next t.event = some (t.after, t.output) := hn
  rw [he, ho] at hn
  obtain ⟨-, hs', hout⟩ := next_eq_some hn
  unfold Startups.call at hs' hout
  cases hexec : t.before.exec (.reserve k) with
  | error text =>
    rw [hexec] at hout
    cases hout
  | ok x =>
    obtain ⟨s2, reply⟩ := x
    rw [hexec] at hs' hout
    obtain ⟨⟨s1, b⟩, hb, he⟩ := map_eq_ok.mp hexec
    obtain ⟨rfl, rfl⟩ := Prod.mk.inj he
    obtain rfl : b = true := StartupReply.bool.inj (Except.ok.inj hout).symm
    obtain ⟨r, i, hr, hi, hopen, hpush, hpaused, rfl⟩ := reserve_eq_true hb
    refine ⟨r, i, hr, hi, hopen, hpush, hpaused, ?_, ?_⟩
    · rw [hs']
      rfl
    · rw [hs']
      rfl

theorem on_reserves {t : Transition Startups StartupCall (Except String StartupReply)}
    (hn : startup.step t.before t.event t.after t.output) (ht : Reserves t k)
    (hk : Known t.before) {P : StartupRow → Prop} (hP : ∀ r : StartupRow, r.Open k → P (r.reserved k)) :
    On k.startup.instanceId k.startup.launch P t.after := by
  obtain ⟨r, -, hr, -, hopen, -, -, hrows, hlaunches⟩ := reserves_step hn ht
  refine ⟨?_, fun r' hr' _ => ?_⟩
  · rw [hlaunches, ← hopen.2.1]
    exact hk _ _ hr
  · have hid : (r.reserved k).instanceId = k.startup.instanceId := (Table.get_eq_some.mp hr).2
    rw [hrows, ← hid, Table.get_put_self] at hr'
    obtain rfl := Option.some.inj hr'
    exact hP r hopen

section
variable {mid older : List (Transition Startups StartupCall (Except String StartupReply))}
  {t u : Transition Startups StartupCall (Except String StartupReply)} {k' : ClaudeStartupKey}

/-- The row that a later reservation of the launch finds. -/
theorem on_of_reserves {P : StartupRow → Prop}
    (hn : startup.step u.before u.event u.after u.output) (hu : Reserves u k')
    (hid : k'.startup.instanceId = id) (hlaunch : k'.startup.launch = launch)
    (ho : On id launch P u.before) : ∃ r, u.before.rows.get id = some r ∧ r.Open k' ∧ P r := by
  obtain ⟨r, -, hr, -, hopen, -⟩ := reserves_step hn hu
  rw [hid] at hr
  exact ⟨r, hr, hopen, ho.2 r hr (hopen.2.1.trans hlaunch)⟩

/-- The attempt of a reservation stays outstanding until it is finished. -/
theorem holds_until (hr : startup.Run (mid ++ t :: older) s) (ht : Reserves t k) :
    On k.startup.instanceId k.startup.launch (fun r => r.Holds k) s ∨
      ∃ v ∈ mid, ∃ written, Finishes v k written := by
  obtain ⟨hrun, hn⟩ := hr.split
  refine hr.unless (E := fun v => ∃ written, Finishes v k written) ?_
    (on_reserves hn ht (known_reachable hrun.reachable) fun r hopen => ?_)
  · intro s c s' o _ hn ho
    refine On.next ho hn fun r r' hr hholds hturn => ?_
    rcases hturn.holds hr hholds with hholds | ⟨w, rfl, -⟩
    · exact Or.inl hholds
    · exact Or.inr ⟨w, rfl, r, hr, hholds⟩
  · exact ⟨hopen.1, hopen.2.1, rfl, Table.get_put_self⟩

/-- A key that was typed stays so. -/
theorem written_since (hr : startup.Run (mid ++ t :: older) s) (ht : Finishes t k true) :
    On k.startup.instanceId k.startup.launch (KeyTyped k.prompt) s := by
  obtain ⟨hrun, hn⟩ := hr.split
  refine hr.since (fun s c s' o _ hn ho => ?_) ?_
  · have hkeep := On.next (E := False) ho hn fun r r' _ hw hturn => Or.inl (hturn.written hw)
    exact hkeep.resolve_right id
  · obtain ⟨he, r, hget, hholds⟩ := ht
    have hn : t.before.next t.event = some (t.after, t.output) := hn
    rw [he] at hn
    obtain ⟨-, hs', -⟩ := next_eq_some hn
    have hrows : t.after.rows = t.before.rows.put (r.finished k true) := by
      rw [hs']
      change (Startups.finishClaudeStartupKey t.before k true).rows = _
      unfold Startups.finishClaudeStartupKey
      rw [hget]
      simp only [if_pos hholds]
      rfl
    refine ⟨?_, fun r' hr' _ => ?_⟩
    · rw [hs', ← hholds.2.1]
      exact List.mem_append_right _ (known_reachable hrun.reachable _ _ hget)
    · have hid : (r.finished k true).instanceId = k.startup.instanceId :=
        (Table.get_eq_some.mp hget).2
      rw [hrows, ← hid, Table.get_put_self] at hr'
      obtain rfl := Option.some.inj hr'
      exact ⟨⟨k.prompt, k.attempt, true⟩, Table.get_put_self, rfl⟩

/-- An attempt that is outstanding or written keeps its prompt until it is refused. -/
theorem taken_until (hr : startup.Run (mid ++ t :: older) s) (ht : Reserves t k) :
    On k.startup.instanceId k.startup.launch (fun r => r.Holds k ∨ KeyTyped k.prompt r) s ∨
      ∃ v ∈ mid, Finishes v k false := by
  obtain ⟨hrun, hn⟩ := hr.split
  refine hr.unless (E := fun v => Finishes v k false) ?_
    (on_reserves hn ht (known_reachable hrun.reachable) fun r hopen => Or.inl ?_)
  · intro s c s' o _ hn ho
    refine On.next ho hn fun r r' hr hor hturn => ?_
    rcases hor with hholds | hwritten
    · rcases hturn.holds hr hholds with hholds' | ⟨w, rfl, rfl⟩
      · exact Or.inl (Or.inl hholds')
      · cases w with
        | true => exact Or.inl (Or.inr ⟨_, Table.get_put_self, rfl⟩)
        | false => exact Or.inr ⟨rfl, r, hr, hholds⟩
    · exact Or.inl (Or.inr (hturn.written hwritten))
  · exact ⟨hopen.1, hopen.2.1, rfl, Table.get_put_self⟩

/-- The generation of a launch that reserved a key stays. -/
theorem generation_since (hr : startup.Run (mid ++ t :: older) s) (ht : Reserves t k) :
    On k.startup.instanceId k.startup.launch (fun r => r.generation = some k.generation) s := by
  obtain ⟨hrun, hn⟩ := hr.split
  refine hr.since (fun s c s' o _ hn ho => ?_)
    (on_reserves hn ht (known_reachable hrun.reachable) fun _ _ => rfl)
  have hkeep := On.next (E := False) ho hn fun r r' _ hg hturn => Or.inl (hturn.generation hg)
  exact hkeep.resolve_right id

theorem call_manual {session new : String}
    (ho : (s.call (.manual id session new)).2 = .ok .unit) :
    s.manualClaudeStartup id session new = .ok (s.call (.manual id session new)).1 := by
  unfold Startups.call at ho ⊢
  simp only [Startups.exec] at ho ⊢
  cases hm : s.manualClaudeStartup id session new with
  | error text =>
    rw [hm] at ho
    cases ho
  | ok s1 => rfl

theorem manual_rows {session new : String} (hget : s.rows.get id = some r)
    (ho : (s.call (.manual id session new)).2 = .ok .unit) :
    (s.call (.manual id session new)).1.rows =
      s.rows.put { r with manual := true, halted := true } := by
  obtain ⟨-, hm⟩ := require_bind_eq_ok.mp (call_manual ho)
  rw [hget] at hm
  exact congrArg Startups.rows (Except.ok.inj hm).symm

theorem manual_rows_new {session new : String} (hget : s.rows.get id = none)
    (ho : (s.call (.manual id session new)).2 = .ok .unit) :
    (s.call (.manual id session new)).1.rows =
      s.rows.put ⟨id, session, new, none, true, true, .empty⟩ := by
  obtain ⟨-, hm⟩ := require_bind_eq_ok.mp (call_manual ho)
  rw [hget] at hm
  exact congrArg Startups.rows (Except.ok.inj hm).symm

/-- A stopped launch has no row that is not halted. -/
theorem halted_since (hr : startup.Run (mid ++ t :: older) s) (ht : Stops t id launch) :
    On id launch (fun r => r.halted = true) s := by
  obtain ⟨hrun, hn⟩ := hr.split
  refine hr.since (fun s c s' o _ hn ho => ?_) ?_
  · have hkeep := On.next (E := False) ho hn fun r r' _ hh hturn => Or.inl (hturn.stays_halted hh)
    exact hkeep.resolve_right fun h => h
  · have hn : t.before.next t.event = some (t.after, t.output) := hn
    obtain ⟨hnew, hs', hout⟩ := next_eq_some hn
    have hput : ∀ x : StartupRow, x.instanceId = id → launch ∈ t.after.launches →
        t.after.rows = t.before.rows.put x → x.halted = true ∨ x.launchId ≠ launch →
        On id launch (fun r => r.halted = true) t.after := by
      intro x hx hmem hrows hor
      refine ⟨hmem, fun r' hr' hl => ?_⟩
      rw [hrows, ← hx, Table.get_put_self] at hr'
      obtain rfl := Option.some.inj hr'
      exact hor.resolve_right fun hne => hne hl
    rcases ht with ⟨r, hget, hlaunch, hor⟩ | ⟨hget, session, he, ho⟩
    · have hmem : launch ∈ t.before.launches :=
        hlaunch ▸ known_reachable hrun.reachable id r hget
      have hkept : launch ∈ t.after.launches := by
        rw [hs']
        exact List.mem_append_right _ hmem
      have hid : r.instanceId = id := (Table.get_eq_some.mp hget).2
      rcases hor with he | ⟨session, new, he, ho⟩ | ⟨session, new, he⟩
      · refine hput { r with halted := true } hid hkept ?_ (Or.inl rfl)
        rw [hs', he]
        change (Startups.haltClaudeStartup t.before id r.sessionId).rows = _
        unfold Startups.haltClaudeStartup
        rw [hget]
        simp only [if_true]
        rfl
      · refine hput { r with manual := true, halted := true } hid hkept ?_ (Or.inl rfl)
        rw [he, ho] at hout
        rw [hs', he]
        exact manual_rows hget hout.symm
      · have hne : new ≠ launch := by
          rintro rfl
          exact hnew new (by rw [he]; rfl) hmem
        refine hput ⟨id, session, new, none, r.manual, r.manual, .empty⟩ rfl hkept ?_ (Or.inr hne)
        rw [hs', he]
        unfold Startups.call
        simp only [Startups.exec, Startups.beginClaudeStartup, hget]
        rfl
    · refine hput ⟨id, session, launch, none, true, true, .empty⟩ rfl ?_ ?_ (Or.inl rfl)
      · rw [hs', he]
        exact List.mem_append_left _ (List.mem_singleton_self _)
      · rw [he, ho] at hout
        rw [hs', he]
        exact manual_rows_new hget hout.symm

end

/-- Startup keys are never typed twice, over every order of calls. -/
theorem startup_keys_typed_once
    {h : List (Transition Startups StartupCall (Except String StartupReply))} {s : Startups}
    (hr : startup.Run h s) : TypedOnce h where
  again newer u mid t older k k' hh ht hu hid hlaunch hprompt := by
    subst hh
    obtain ⟨hrun, hn⟩ := hr.split
    refine ⟨(taken_until hrun ht).resolve_left fun ho => ?_, fun v hv hfin => ?_⟩
    · obtain ⟨r, -, ⟨-, -, -, -, hnone, -⟩, hor⟩ := on_of_reserves hn hu hid hlaunch ho
      rw [hprompt] at hnone
      rcases hor with ⟨-, -, -, hget⟩ | ⟨record, hget, -⟩
      · cases hget.symm.trans hnone
      · cases Eq.trans (Eq.symm hget) hnone
    · obtain ⟨before, after, rfl⟩ := List.append_of_mem hv
      rw [List.append_assoc, List.cons_append] at hrun
      obtain ⟨r, -, ⟨-, -, -, -, hnone, -⟩, record, hget, -⟩ :=
        on_of_reserves hn hu hid hlaunch (written_since hrun hfin)
      rw [hprompt] at hnone
      cases Eq.trans (Eq.symm hget) hnone
  outstanding newer u mid t older k k' hh ht hu hid hlaunch := by
    subst hh
    obtain ⟨hrun, hn⟩ := hr.split
    refine (holds_until hrun ht).resolve_left fun ho => ?_
    obtain ⟨r, -, ⟨-, -, -, -, -, hall⟩, -, -, -, hget⟩ := on_of_reserves hn hu hid hlaunch ho
    cases hall _ (Table.get_eq_some.mp hget).1
  generation newer u mid t older k k' hh ht hu hid hlaunch := by
    subst hh
    obtain ⟨hrun, hn⟩ := hr.split
    obtain ⟨r, -, ⟨-, -, -, hor, -⟩, hgen⟩ :=
      on_of_reserves hn hu hid hlaunch (generation_since hrun ht)
    rcases hor with hnone | hsome
    · cases hgen.symm.trans hnone
    · exact Option.some.inj (hsome.symm.trans hgen)
  stopped newer u mid t older id launch k hh ht hu hid hlaunch := by
    subst hh
    obtain ⟨hrun, hn⟩ := hr.split
    obtain ⟨r, -, ⟨-, -, hopen, -⟩, hhalted⟩ :=
      on_of_reserves hn hu hid hlaunch (halted_since hrun ht)
    cases hhalted.symm.trans hopen
  allowed t ht k hres := by
    obtain ⟨-, hn⟩ := hr.of_mem t ht
    obtain ⟨r, i, hget, hi, hopen, hpush, hpaused, -, -⟩ := reserves_step hn hres
    refine ⟨fun record hrecord => ?_, ⟨i, hi, hpush.2.2.2.2⟩, r, hget, hopen.1, hopen.2.1⟩
    obtain ⟨found, hfound, hpaused⟩ := map_eq_ok.mp hpaused
    obtain rfl := (Store.readSwitch_eq_ok hfound).symm.trans hrecord
    constructor
    · intro hphase
      simp [hphase] at hpaused
    · intro hphase
      simp [hphase] at hpaused
  stale t ht k written he hno := by
    obtain ⟨-, hn⟩ := hr.of_mem t ht
    have hn : t.before.next t.event = some (t.after, t.output) := hn
    obtain ⟨-, hs', -⟩ := next_eq_some hn
    rw [hs', he]
    change ({ Startups.finishClaudeStartupKey t.before k written with
      launches := t.before.launches } : Startups) = _
    unfold Startups.finishClaudeStartupKey
    cases hget : t.before.rows.get k.startup.instanceId with
    | none => rfl
    | some r =>
      have hnot : ¬ r.Holds k := fun hholds => hno ⟨he, r, hget, hholds⟩
      simp only [if_neg hnot]

/-- A running agent whose trust menu is answered, refused once, and then answered again. -/
def answered : List StartupCall :=
  let session := "11111111-1111-4111-8111-111111111111"
  let agent : Instance :=
    ⟨"dev", .claude, "claude", [], "/repo", some session, .running, true, none, false, "push"⟩
  let key (attempt : String) : ClaudeStartupKey := ⟨⟨"dev", session, "l1"⟩, "g", "trust_no", attempt⟩
  [.runtime (.addInstance agent), .begin_ "dev" session "l1", .reserve (key "a1"),
    .reserve (key "a2"), .finish (key "a1") false, .reserve (key "a2"), .finish (key "a2") true,
    .reserve (key "a3")]

/-- Only the first attempt and the one after the refusal succeed. -/
theorem startup_keys_typed_once_answered :
    let played := Machine.play Startups.next [] ⟨.empty, .empty, []⟩ answered
    (played.1.filterMap fun t => match t.event, t.output with
      | .reserve key, .ok (.bool b) => some (key.attempt, b)
      | _, _ => none) = [("a3", false), ("a2", true), ("a2", false), ("a1", true)] ∧
      TypedOnce played.1 := by
  intro played
  have hr : startup.Run played.1 played.2 :=
    (Machine.Run.start (M := startup) (s := ⟨.empty, .empty, []⟩) rfl).play fun _ _ _ _ hn => hn
  exact ⟨by decide +kernel, startup_keys_typed_once hr⟩

end Agend.Runtime
