import Agend.Claude.Bridge

/-! A poll is handed messages only in a session that is idle. -/
namespace Agend.Claude

open Library

abbrev BridgeStep := Transition Bridge (Section × Nat) Reply

section

variable {session : String} {h newer older : List BridgeStep} {t : BridgeStep} {b b' : Bridge}
  {hook : Hook} {st st' : State} {now at_ call : Nat} {o : Reply}

/-- The hook that a call takes in with the instance running. It is new, of the session, no replay
and on time. -/
def fresh (session : String) (t : BridgeStep) : Option Hook :=
  match t.event.1 with
  | .intake call true _ _ _ =>
    match t.before.calls call with
    | some (.hook hook true arrived) =>
      if hook.session = session ∧ hook.replayed = false ∧ hook.onTime arrived = true then some hook
      else none
    | _ => none
  | _ => none

/-- The time of the last routing hook that was accepted: none was later when it came. -/
def lastAccepted (session : String) : List BridgeStep → Nat
  | [] => 0
  | t :: h =>
    match fresh session t with
    | some hook =>
      if hook.event.routes = true ∧ lastAccepted session h ≤ hook.occurredAtUnixMs then
        hook.occurredAtUnixMs
      else lastAccepted session h
    | none => lastAccepted session h

def Accepted (session : String) (h : List BridgeStep) (hook : Hook) (t : BridgeStep) : Prop :=
  fresh session t = some hook ∧
    (hook.event.routes = true → lastAccepted session h ≤ hook.occurredAtUnixMs)

/-- A new hook of the session that is late or a replay, and not older than the last accepted. -/
def Revokes (session : String) (h : List BridgeStep) (t : BridgeStep) : Prop :=
  ∃ call serving connection current stored hook arrived,
    t.event.1 = .intake call serving connection current stored ∧
    t.before.calls call = some (.hook hook true arrived) ∧
    (hook.replayed = true ∨ hook.onTime arrived = false) ∧ hook.event.routes = true ∧
    hook.session = session ∧ lastAccepted session h ≤ hook.occurredAtUnixMs

/-- The messages that a section reserves, to hand them out. -/
def batch (session : String) (t : BridgeStep) : List String :=
  match t.event.1 with
  | .reserve call (.ok pushes) _ =>
    match t.before.calls call, t.before.state with
    | some (.clear r), some st => if Bridge.still session st r t.event.2 then pushes else []
    | _, _ => []
  | .interruptReserve call (.ok pushes) =>
    match t.before.calls call, t.before.state with
    | some (.interruptClear revision), some st =>
      if st.session = session ∧ st.revision = revision ∧ st.busy = true then pushes else []
    | _, _ => []
  | _ => []

/-- What ends that the session is idle. -/
def Active (session : String) (h : List BridgeStep) (t : BridgeStep) : Prop :=
  (∃ hook, Accepted session h hook t ∧ (hook.event = .userPromptSubmit ∨
    hook.event = .sessionStart ∨ hook.event = .sessionEnd)) ∨
    Revokes session h t ∨ batch session t ≠ []

/-- The observer found the ready prompt of a session that starts. -/
def Ready (session : String) (t : BridgeStep) : Prop :=
  ∃ call generation connection current st,
    t.event.1 = .observed call (some generation) connection current ∧
    t.before.calls call = some (.observing st.revision) ∧ t.before.state = some st ∧
    st.session = session ∧ st.initial = true ∧ st.busy = false

/-- What makes the session idle. -/
def Rests (session : String) (h : List BridgeStep) (t : BridgeStep) : Prop :=
  (∃ hook, Accepted session h hook t ∧ hook.event = .stop) ∨ Ready session t

/-- The session rested at the time, and was not active since. -/
def Rested (session : String) (at_ : Nat) (h : List BridgeStep) : Prop :=
  ∃ mid t past, h = mid ++ t :: past ∧ t.event.2 = at_ ∧ Rests session past t ∧
    ∀ later u earlier, mid = later ++ u :: earlier → ¬ Active session (earlier ++ t :: past) u

theorem Rested.cons (hr : Rested session at_ h) (hn : ¬ Active session h t) :
    Rested session at_ (t :: h) := by
  obtain ⟨mid, u, past, rfl, hat, hrests, hmid⟩ := hr
  refine ⟨t :: mid, u, past, rfl, hat, hrests, fun later v earlier he => ?_⟩
  cases later with
  | nil =>
    obtain ⟨rfl, rfl⟩ := List.cons.inj he
    exact hn
  | cons w later =>
    obtain ⟨rfl, rfl⟩ := List.cons.inj he
    exact hmid later v earlier rfl

theorem Rested.at_once (hat : t.event.2 = at_) (hr : Rests session h t) : Rested session at_ (t :: h) :=
  ⟨[], t, h, rfl, hat, hr, fun later u earlier he => by
    cases later <;> cases he⟩

/-- What the cached state says of the run. -/
structure Kept (session : String) (h : List BridgeStep) (st : State) : Prop where
  own : st.session = session
  accepted_le : lastAccepted session h ≤ st.lastRouteHook
  accepted_eq : st.initial = true ∨ st.idle.isSome = true →
    lastAccepted session h = st.lastRouteHook
  rested : ∀ at_, st.idle = some at_ → Rested session at_ h
  busy : st.busy = true → st.idle = none

/-- A section without a fresh hook that leaves the session idle at most as it was. -/
theorem Kept.quiet (hk : Kept session h st) (hf : fresh session t = none)
    (hs : st'.session = st.session) (hl : st'.lastRouteHook = st.lastRouteHook)
    (hinitial : st'.initial = true → st.initial = true)
    (hidle : st'.idle = none ∨ st'.idle = st.idle ∧ ¬ Active session h t)
    (hbusy : st'.busy = true → st.busy = true ∨ st'.idle = none) : Kept session (t :: h) st' := by
  have hla : lastAccepted session (t :: h) = lastAccepted session h := by
    simp only [lastAccepted, hf]
  refine ⟨hs.trans hk.own, ?_, ?_, ?_, ?_⟩
  · rw [hla, hl]
    exact hk.accepted_le
  · rw [hla, hl]
    rintro (hi | hi)
    · exact hk.accepted_eq (Or.inl (hinitial hi))
    · rcases hidle with he | ⟨he, -⟩
      · rw [he] at hi
        cases hi
      · exact hk.accepted_eq (Or.inr (he ▸ hi))
  · intro at_ hat
    rcases hidle with he | ⟨he, hn⟩
    · cases he.symm.trans hat
    · exact (hk.rested at_ (he ▸ hat)).cons hn
  · intro hb
    rcases hbusy hb with hb | hi
    · rcases hidle with he | ⟨he, -⟩
      · exact he
      · exact he.trans (hk.busy hb)
    · exact hi

theorem kept_new (hla : lastAccepted session h = 0) : Kept session h (.new session) :=
  ⟨rfl, hla.le, fun _ => hla, fun _ hat => (by cases hat), fun hb => (by cases hb)⟩

/-- The state that the next call works on is as the run left it. -/
def Keeps (session : String) (h : List BridgeStep) (b : Bridge) : Prop :=
  Kept session h (.of session b.state) ∧ ∀ st, b.state = some st → st.session = session

theorem State.of_some (hs : st.session = session) : State.of session (some st) = st := if_pos hs

theorem Keeps.state (hk : Keeps session h b) (hs : b.state = some st) : Kept session h st := by
  have hkept := hk.1
  rw [hs, State.of_some (hk.2 st hs)] at hkept
  exact hkept

theorem Keeps.of_state (hk : Kept session h st) (hs : b.state = some st) : Keeps session h b := by
  refine ⟨?_, fun st' hs' => ?_⟩
  · rw [hs, State.of_some hk.own]
    exact hk
  · rw [← Option.some.inj (hs.symm.trans hs')]
    exact hk.own

/-- A section that leaves the state alone, and is of no activity while the session is idle. -/
theorem Keeps.same (hk : Keeps session h b) (hs : b'.state = b.state)
    (hf : fresh session t = none) (hn : ¬ Active session h t) : Keeps session (t :: h) b' :=
  ⟨hs ▸ hk.1.quiet hf rfl rfl id (Or.inr ⟨rfl, hn⟩) Or.inl, fun st hst => hk.2 st (hs ▸ hst)⟩

/-- Only three kinds of section can be active. -/
theorem not_active (hf : fresh session t = none)
    (hi : ∀ call serving connection current stored,
      t.event.1 ≠ .intake call serving connection current stored)
    (hb : batch session t = []) : ¬ Active session h t := by
  rintro (⟨hook, ⟨he, -⟩, -⟩ | ⟨call, serving, connection, current, stored, hook, arrived, he, -⟩ |
    hne)
  · cases hf.symm.trans he
  · exact hi call serving connection current stored he
  · exact hne hb

theorem publish_state : (b.publish call hook now).1.state = b.state := by
  unfold Bridge.publish
  split_ifs
  · rfl
  · split
    · rfl
    · rename_i b' inserted hb
      unfold Bridge.append at hb
      split at hb
      · split_ifs at hb
        · obtain ⟨rfl, rfl⟩ := Prod.mk.inj (Except.ok.inj hb)
          rfl
      · obtain ⟨rfl, rfl⟩ := Prod.mk.inj (Except.ok.inj hb)
        rfl

/-- What attaching and polling leave of the state. -/
theorem attach_state {serving : Bool} :
    (b.attach session serving).1.state = b.state ∨
      (b.attach session serving).1.state = some (State.of session b.state) := by
  cases serving
  · exact Or.inl rfl
  · exact Or.inr rfl

theorem poll_state {serving : Bool} {channel : String} :
    (b.poll session call serving channel now).1.state = b.state ∨
      (b.poll session call serving channel now).1.state = some (State.of session b.state) := by
  unfold Bridge.poll
  split_ifs
  · exact Or.inl rfl
  · exact Or.inr rfl
  · refine Or.inr ?_
    dsimp only
    split_ifs <;> rfl

theorem Keeps.settled (hk : Keeps session h b)
    (hs : b'.state = b.state ∨ b'.state = some (State.of session b.state))
    (hf : fresh session t = none) (hn : ¬ Active session h t) : Keeps session (t :: h) b' := by
  rcases hs with hs | hs
  · exact hk.same hs hf hn
  · exact .of_state (hk.1.quiet hf rfl rfl id (Or.inr ⟨rfl, hn⟩) Or.inl) hs

theorem look_state {frame : Option String} {clear : Bool}
    (hs : b.look call frame clear = some (b', o)) : b'.state = b.state := by
  unfold Bridge.look at hs
  split at hs
  · split_ifs at hs <;> (obtain ⟨rfl, -⟩ := Prod.mk.inj (Option.some.inj hs); rfl)
  · cases hs

theorem interruptLook_state {clear : Bool}
    (hs : b.interruptLook call clear = some (b', o)) : b'.state = b.state := by
  unfold Bridge.interruptLook at hs
  split at hs
  · split_ifs at hs <;> (obtain ⟨rfl, -⟩ := Prod.mk.inj (Option.some.inj hs); rfl)
  · cases hs

theorem keyed_state {written : Bool}
    (hs : b.keyed session call written = some (b', o)) : b'.state = b.state := by
  unfold Bridge.keyed at hs
  split at hs
  · split_ifs at hs <;> (obtain ⟨rfl, -⟩ := Prod.mk.inj (Option.some.inj hs); rfl)
  · cases hs

theorem observe_state : (b.observe session call).1.state = b.state := by
  unfold Bridge.observe
  split
  · split_ifs <;> rfl
  · rfl

theorem unready_keeps (hk : Keeps session h b) (hs : b.unready call = some (b', o))
    (hf : fresh session t = none) (hn : ¬ Active session h t) : Keeps session (t :: h) b' := by
  unfold Bridge.unready at hs
  split at hs
  · dsimp only [Bridge.set] at hs
    split at hs
    · rename_i st hst
      split_ifs at hs
      · obtain ⟨rfl, -⟩ := Prod.mk.inj (Option.some.inj hs)
        have hq : Kept session (t :: h) { st with
            idle := none
            readyGeneration := none } :=
          (hk.state hst).quiet hf rfl rfl id (Or.inl rfl) Or.inl
        exact .of_state hq rfl
      · obtain ⟨rfl, -⟩ := Prod.mk.inj (Option.some.inj hs)
        exact hk.same rfl hf hn
    · obtain ⟨rfl, -⟩ := Prod.mk.inj (Option.some.inj hs)
      exact hk.same rfl hf hn
  · cases hs

theorem report_eq {busy stored : Bool} : (st.report busy stored).1.session = st.session ∧
    (st.report busy stored).1.lastRouteHook = st.lastRouteHook ∧
    (st.report busy stored).1.initial = st.initial ∧ (st.report busy stored).1.idle = st.idle ∧
    (st.report busy stored).1.busy = st.busy ∧
    (st.report busy stored).1.revision = st.revision := by
  unfold State.report
  split_ifs <;> exact ⟨rfl, rfl, rfl, rfl, rfl, rfl⟩

/-- A reservation of a batch ends that the session is idle. -/
theorem reserved_eq {r : Routing} {pushes : List String} {stored : Bool} :
    (Bridge.reserved st r pushes stored).1.session = st.session ∧
      (Bridge.reserved st r pushes stored).1.lastRouteHook = st.lastRouteHook ∧
      (Bridge.reserved st r pushes stored).1.initial = false ∧
      (pushes ≠ [] → (Bridge.reserved st r pushes stored).1.idle = none) ∧
      (pushes = [] → (Bridge.reserved st r pushes stored).1.idle = st.idle ∧
        (Bridge.reserved st r pushes stored).1.busy = st.busy) := by
  unfold Bridge.reserved
  split_ifs with hp hc
  · obtain ⟨hs, hl, hi, hidle, -⟩ := report_eq
    refine ⟨hs, hl, hi, fun _ => hidle, fun he => absurd he hp⟩
  · obtain ⟨hs, hl, hi, hidle, hbusy, -⟩ := report_eq
    exact ⟨hs, hl, hi, fun hne => absurd hne hp, fun _ => ⟨hidle, hbusy⟩⟩
  · exact ⟨rfl, rfl, rfl, fun hne => absurd hne hp, fun _ => ⟨rfl, rfl⟩⟩

theorem reserve_keeps {pushes : Except String (List String)} {stored : Bool}
    (hk : Keeps session h b) (hs : b.reserve session call pushes stored now = some (b', o))
    (he : t.event = (.reserve call pushes stored, now)) (hstate : t.before.state = b.state)
    (hcalls : t.before.calls = b.calls) : Keeps session (t :: h) b' := by
  have hf : fresh session t = none := by simp only [fresh, he]
  have hna : batch session t = [] → ¬ Active session h t := fun hb =>
    not_active hf (fun _ _ _ _ _ hi => by rw [he] at hi; cases hi) hb
  unfold Bridge.reserve at hs
  split at hs
  case h_2 => cases hs
  rename_i r hr
  dsimp only [Bridge.set] at hs
  split at hs
  · rename_i st hst
    split_ifs at hs with hstill
    · split at hs
      · obtain ⟨rfl, -⟩ := Prod.mk.inj (Option.some.inj hs)
        exact hk.same rfl hf (hna (by simp only [batch, he]))
      · rename_i pushes
        obtain ⟨rfl, -⟩ := Prod.mk.inj (Option.some.inj hs)
        obtain ⟨hown, hlast, hinitial, hsome, hnone⟩ := @reserved_eq st r pushes stored
        refine .of_state ((hk.state hst).quiet hf hown hlast (fun hi => ?_) ?_ ?_) rfl
        · rw [hinitial] at hi
          cases hi
        · by_cases hp : pushes = []
          · refine Or.inr ⟨(hnone hp).1, hna ?_⟩
            simp only [batch, he, hcalls, hr, hstate, hst, hp, ite_self]
          · exact Or.inl (hsome hp)
        · intro hb
          by_cases hp : pushes = []
          · exact Or.inl ((hnone hp).2 ▸ hb)
          · exact Or.inr (hsome hp)
    · obtain ⟨rfl, -⟩ := Prod.mk.inj (Option.some.inj hs)
      refine hk.same rfl hf (hna ?_)
      cases pushes with
      | error => simp only [batch, he]
      | ok pushes => simp only [batch, he, hcalls, hr, hstate, hst, hstill, if_false, Bool.false_eq_true]
  · rename_i hst
    obtain ⟨rfl, -⟩ := Prod.mk.inj (Option.some.inj hs)
    refine hk.same rfl hf (hna ?_)
    cases pushes with
    | error => simp only [batch, he]
    | ok pushes => simp only [batch, he, hcalls, hr, hstate, hst]

theorem interruptReserve_keeps {pushes : Except String (List String)}
    (hk : Keeps session h b) (hs : b.interruptReserve session call pushes = some (b', o))
    (he : t.event = (.interruptReserve call pushes, now)) (hstate : t.before.state = b.state)
    (hcalls : t.before.calls = b.calls) : Keeps session (t :: h) b' := by
  have hf : fresh session t = none := by simp only [fresh, he]
  have hna : batch session t = [] → ¬ Active session h t := fun hb =>
    not_active hf (fun _ _ _ _ _ hi => by rw [he] at hi; cases hi) hb
  unfold Bridge.interruptReserve at hs
  split at hs
  case h_2 => cases hs
  rename_i revision hr
  dsimp only [Bridge.set] at hs
  split at hs
  · rename_i st hst
    split_ifs at hs with hbusy
    · split at hs
      · obtain ⟨rfl, -⟩ := Prod.mk.inj (Option.some.inj hs)
        exact hk.same rfl hf (hna (by simp only [batch, he]))
      · obtain ⟨rfl, -⟩ := Prod.mk.inj (Option.some.inj hs)
        exact hk.same rfl hf (hna (by simp only [batch, he, hcalls, hr, hstate, hst, ite_self]))
      · obtain ⟨rfl, -⟩ := Prod.mk.inj (Option.some.inj hs)
        have hidle := (hk.state hst).busy hbusy.2.2
        have hq : Kept session (t :: h) st.bump :=
          (hk.state hst).quiet hf rfl rfl id (Or.inl hidle) Or.inl
        exact .of_state hq rfl
    · obtain ⟨rfl, -⟩ := Prod.mk.inj (Option.some.inj hs)
      refine hk.same rfl hf (hna ?_)
      cases pushes with
      | error => simp only [batch, he]
      | ok pushes => simp only [batch, he, hcalls, hr, hstate, hst, hbusy, if_false]
  · rename_i hst
    obtain ⟨rfl, -⟩ := Prod.mk.inj (Option.some.inj hs)
    refine hk.same rfl hf (hna ?_)
    cases pushes with
    | error => simp only [batch, he]
    | ok pushes => simp only [batch, he, hcalls, hr, hstate, hst]

theorem observed_keeps {ready : Option String} {connection : Option Nat} {current : Nat → Bool}
    (hk : Keeps session h b)
    (hs : b.observed session call ready connection current now = some (b', o))
    (he : t.event = (.observed call ready connection current, now))
    (hstate : t.before.state = b.state) (hcalls : t.before.calls = b.calls) :
    Keeps session (t :: h) b' := by
  have hf : fresh session t = none := by simp only [fresh, he]
  have hn : ¬ Active session h t := not_active hf
    (fun _ _ _ _ _ hi => by rw [he] at hi; cases hi) (by simp only [batch, he])
  unfold Bridge.observed at hs
  split at hs
  case h_2 => cases hs
  rename_i revision hr
  dsimp only [Bridge.set] at hs
  split at hs
  · rename_i st hst
    split_ifs at hs with hstart
    · obtain ⟨hown, rfl, hinitial, hbusy⟩ := hstart
      split at hs
      · rename_i generation
        split_ifs at hs
        · obtain ⟨rfl, -⟩ := Prod.mk.inj (Option.some.inj hs)
          have hla : lastAccepted session (t :: h) = lastAccepted session h := by
            simp only [lastAccepted, hf]
          have hkept := hk.state hst
          have hready : Ready session t := ⟨call, generation, connection, current, st,
            congrArg Prod.fst he, hcalls ▸ hr, hstate.trans hst, hown, hinitial, hbusy⟩
          have hq : Kept session (t :: h) { st with
              idle := some now
              readyGeneration := some generation
              idleConnection := connection } :=
            { own := hown
              accepted_le := hla.trans_le hkept.accepted_le
              accepted_eq := fun _ => hla.trans (hkept.accepted_eq (Or.inl hinitial))
              rested := fun at_ hat => .at_once
                ((congrArg Prod.snd he).trans (Option.some.inj hat)) (Or.inr hready)
              busy := fun hb => by cases hbusy.symm.trans hb }
          exact .of_state hq rfl
        · obtain ⟨rfl, -⟩ := Prod.mk.inj (Option.some.inj hs)
          exact hk.same rfl hf hn
      · obtain ⟨rfl, -⟩ := Prod.mk.inj (Option.some.inj hs)
        have hq : Kept session (t :: h) { st with
            idle := none
            readyGeneration := none } :=
          (hk.state hst).quiet hf rfl rfl id (Or.inl rfl) Or.inl
        exact .of_state hq rfl
    · obtain ⟨rfl, -⟩ := Prod.mk.inj (Option.some.inj hs)
      exact hk.same rfl hf hn
  · obtain ⟨rfl, -⟩ := Prod.mk.inj (Option.some.inj hs)
    exact hk.same rfl hf hn

/-- A late or replayed hook takes away what it may, and else the session is not idle. -/
theorem stale_keeps {inserted : Bool} (hk : Keeps session h b) (hf : fresh session t = none)
    (hn : Active session h t → inserted = true ∧ hook.event.routes = true ∧
      hook.session = session ∧ lastAccepted session h ≤ hook.occurredAtUnixMs) :
    Keeps session (t :: h) (b.stale hook inserted) := by
  unfold Bridge.stale
  split
  · rename_i st hst
    have hkept := hk.state hst
    have hla : lastAccepted session (t :: h) = lastAccepted session h := by
      simp only [lastAccepted, hf]
    split_ifs with hc
    · have hq : Kept session (t :: h) (st.revoke hook.occurredAtUnixMs) :=
        { own := hkept.own
          accepted_le := hla.trans_le (hkept.accepted_le.trans hc.2.2.2)
          accepted_eq := fun hi => by rcases hi with hi | hi <;> cases hi
          rested := fun at_ hat => by cases hat
          busy := fun hb => by cases hb }
      exact .of_state hq rfl
    · have hq : Kept session (t :: h) st := by
        refine hkept.quiet hf rfl rfl id ?_ Or.inl
        cases hidle : st.idle with
        | none => exact Or.inl rfl
        | some at_ =>
          refine Or.inr ⟨rfl, fun ha => hc ?_⟩
          obtain ⟨hinserted, hroutes, hown, hle⟩ := hn ha
          have heq := hkept.accepted_eq (Or.inr (hidle ▸ rfl))
          exact ⟨hinserted, hroutes, hkept.own.trans hown.symm, heq ▸ hle⟩
      exact .of_state hq hst
  · rename_i hst
    refine ⟨?_, hk.2⟩
    rw [hst]
    have hkept := hk.1
    rw [hst] at hkept
    exact hkept.quiet hf rfl rfl id (Or.inl rfl) Or.inl

theorem fresh_eq_some (hf : fresh session t = some hook) :
    ∃ call connection current stored arrived,
      t.event.1 = .intake call true connection current stored ∧
      t.before.calls call = some (.hook hook true arrived) ∧ hook.session = session ∧
      hook.replayed = false ∧ hook.onTime arrived = true := by
  unfold fresh at hf
  split at hf
  · rename_i call connection current stored he
    split at hf
    · rename_i hook' arrived hc
      split_ifs at hf with hfresh
      obtain rfl := Option.some.inj hf
      exact ⟨call, connection, current, stored, arrived, he, hc, hfresh⟩
    · cases hf
  · cases hf

/-- What a section with a fresh hook may be the activity of. -/
theorem active_of_fresh (hf : fresh session t = some hook) (ha : Active session h t) :
    (hook.event = .userPromptSubmit ∨ hook.event = .sessionStart ∨ hook.event = .sessionEnd) ∧
      (hook.event.routes = true → lastAccepted session h ≤ hook.occurredAtUnixMs) := by
  obtain ⟨call, connection, current, stored, arrived, he, hc, -, hreplayed, htime⟩ :=
    fresh_eq_some hf
  rcases ha with ⟨hook', ⟨hf', hle⟩, hevent⟩ |
    ⟨call', _, _, _, _, hook', arrived', he', hc', hlate, -⟩ | hb
  · obtain rfl := Option.some.inj (hf.symm.trans hf')
    exact ⟨hevent, hle⟩
  · rw [he] at he'
    obtain ⟨rfl, -⟩ := Section.intake.inj he'
    obtain ⟨rfl, -, rfl⟩ := Pending.hook.inj (Option.some.inj (hc.symm.trans hc'))
    rcases hlate with hr | ht
    · cases hreplayed.symm.trans hr
    · cases htime.symm.trans ht
  · refine absurd ?_ hb
    simp only [batch, he]

theorem kept_report {busy stored : Bool} (hk : Kept session h st) :
    Kept session h (st.report busy stored).1 := by
  obtain ⟨hown, hlast, hinitial, hidle, hbusy, -⟩ := @report_eq st busy stored
  refine ⟨hown.trans hk.own, hlast ▸ hk.accepted_le, fun hi => ?_, fun at_ hat => ?_, fun hb => ?_⟩
  · rw [hlast]
    rw [hinitial, hidle] at hi
    exact hk.accepted_eq hi
  · exact hk.rested at_ (hidle ▸ hat)
  · exact hidle.trans (hk.busy (hbusy ▸ hb))

/-- The use of a tool leaves the session idle. -/
theorem kept_tool (hk : Kept session h st)
    (hla : lastAccepted session (t :: h) = lastAccepted session h)
    (hn : ¬ Active session h t) (hown : st'.session = st.session)
    (hlast : st'.lastRouteHook = st.lastRouteHook) (hinitial : st'.initial = st.initial)
    (hidle : st'.idle = st.idle) (hbusy : st'.busy = st.busy) : Kept session (t :: h) st' where
  own := hown.trans hk.own
  accepted_le := by
    rw [hla, hlast]
    exact hk.accepted_le
  accepted_eq := by
    rw [hla, hlast, hinitial, hidle]
    exact hk.accepted_eq
  rested at_ hat := (hk.rested at_ (hidle ▸ hat)).cons hn
  busy hb := hidle.trans (hk.busy (hbusy ▸ hb))

/-- A fresh hook that the state takes in. -/
theorem route_keeps {connection : Option Nat} {current : Nat → Bool} {stored : Bool}
    (hk : Kept session h st) (hf : fresh session t = some hook)
    (hc : hook.event.routes = true → st.lastRouteHook ≤ hook.occurredAtUnixMs)
    (hnow : t.event.2 = now) :
    Kept session (t :: h) (Bridge.route st hook connection current stored now).1 := by
  have haccepted : hook.event.routes = true → lastAccepted session h ≤ hook.occurredAtUnixMs :=
    fun hr => hk.accepted_le.trans (hc hr)
  have hroute : hook.event.routes = true →
      lastAccepted session (t :: h) = hook.occurredAtUnixMs := fun hr => by
    simp only [lastAccepted, hf]
    exact if_pos ⟨hr, haccepted hr⟩
  have hna : ¬ (hook.event = .userPromptSubmit ∨ hook.event = .sessionStart ∨
      hook.event = .sessionEnd) → ¬ Active session h t := fun hne ha =>
    hne (active_of_fresh hf ha).1
  have htool : hook.event.routes = false →
      lastAccepted session (t :: h) = lastAccepted session h := fun hr => by
    simp only [lastAccepted, hf]
    exact if_neg fun hboth => by cases hr.symm.trans hboth.1
  cases hevent : hook.event with
  | userPromptSubmit =>
    simp only [Bridge.route, hevent]
    exact kept_report ⟨hk.own, (hroute (hevent ▸ rfl)).le, fun _ => hroute (hevent ▸ rfl),
      fun at_ hat => (by cases hat), fun _ => rfl⟩
  | preToolUse =>
    simp only [Bridge.route, hevent]
    exact kept_tool hk (htool (hevent ▸ rfl)) (hna (by rw [hevent]; decide)) rfl rfl rfl rfl rfl
  | postToolUse =>
    simp only [Bridge.route, hevent]
    exact kept_tool hk (htool (hevent ▸ rfl)) (hna (by rw [hevent]; decide)) rfl rfl rfl rfl rfl
  | sessionEnd =>
    simp only [Bridge.route, hevent]
    exact ⟨hk.own, (hroute (hevent ▸ rfl)).le, fun _ => hroute (hevent ▸ rfl),
      fun at_ hat => (by cases hat), fun hb => (by cases hb)⟩
  | sessionStart =>
    simp only [Bridge.route, hevent]
    exact ⟨hk.own, (hroute (hevent ▸ rfl)).le, fun _ => hroute (hevent ▸ rfl),
      fun at_ hat => (by cases hat), fun hb => (by cases hb)⟩
  | stop =>
    have hrested : ∀ at_, some now = some at_ → Rested session at_ (t :: h) := fun at_ hat =>
      .at_once (hnow.trans (Option.some.inj hat)) (Or.inl ⟨hook, ⟨hf, haccepted⟩, hevent⟩)
    simp only [Bridge.route, hevent]
    split
    · exact ⟨hk.own, (hroute (hevent ▸ rfl)).le, fun _ => hroute (hevent ▸ rfl), hrested,
        fun hb => (by cases hb)⟩
    · exact ⟨hk.own, (hroute (hevent ▸ rfl)).le, fun _ => hroute (hevent ▸ rfl), hrested,
        fun hb => (by cases hb)⟩
    · exact kept_report ⟨hk.own, (hroute (hevent ▸ rfl)).le, fun _ => hroute (hevent ▸ rfl),
        fun at_ hat => (by cases hat), fun _ => rfl⟩

/-- A fresh hook that came too late to be taken in. -/
theorem ignored_keeps (hk : Kept session h st) (hf : fresh session t = some hook)
    (hc : hook.occurredAtUnixMs < st.lastRouteHook) (hr : hook.event.routes = true) :
    Kept session (t :: h) st := by
  have hla : lastAccepted session (t :: h) = if lastAccepted session h ≤ hook.occurredAtUnixMs then
      hook.occurredAtUnixMs else lastAccepted session h := by
    simp only [lastAccepted, hf, hr, true_and]
  have hold : st.initial = true ∨ st.idle.isSome = true →
      ¬ lastAccepted session h ≤ hook.occurredAtUnixMs := fun hi => by
    rw [hk.accepted_eq hi]
    exact not_le.mpr hc
  refine ⟨hk.own, ?_, fun hi => ?_, fun at_ hat => ?_, hk.busy⟩
  · rw [hla]
    split_ifs
    · exact hc.le
    · exact hk.accepted_le
  · rw [hla, if_neg (hold hi)]
    exact hk.accepted_eq hi
  · exact (hk.rested at_ hat).cons fun ha =>
      hold (Or.inr (hat ▸ rfl)) ((active_of_fresh hf ha).2 hr)

theorem fresh_intake {serving inserted : Bool} {connection : Option Nat} {current : Nat → Bool}
    {stored : Bool} {arrived : Nat} {hook' : Hook}
    (he : t.event = (.intake call serving connection current stored, now))
    (hc : t.before.calls call = some (.hook hook inserted arrived))
    (hf : fresh session t = some hook') : hook' = hook ∧ serving = true ∧ inserted = true ∧
      hook.session = session ∧ hook.replayed = false ∧ hook.onTime arrived = true := by
  obtain ⟨call', _, _, _, arrived', he', hc', hfresh⟩ := fresh_eq_some hf
  rw [he] at he'
  obtain ⟨rfl, rfl, -⟩ := Section.intake.inj he'
  obtain ⟨rfl, rfl, rfl⟩ := Pending.hook.inj (Option.some.inj (hc.symm.trans hc'))
  exact ⟨rfl, rfl, rfl, hfresh⟩

/-- Without a fresh hook the only activity of an intake is to revoke. -/
theorem active_intake {serving inserted : Bool} {connection : Option Nat} {current : Nat → Bool}
    {stored : Bool} {arrived : Nat}
    (he : t.event = (.intake call serving connection current stored, now))
    (hc : t.before.calls call = some (.hook hook inserted arrived))
    (hf : fresh session t = none) (ha : Active session h t) : inserted = true ∧
      (hook.replayed = true ∨ hook.onTime arrived = false) ∧ hook.event.routes = true ∧
      hook.session = session ∧ lastAccepted session h ≤ hook.occurredAtUnixMs := by
  rcases ha with ⟨hook', ⟨hf', -⟩, -⟩ |
    ⟨call', _, _, _, _, hook', arrived', he', hc', hrevokes⟩ | hb
  · cases hf.symm.trans hf'
  · rw [he] at he'
    obtain ⟨rfl, -⟩ := Section.intake.inj he'
    obtain ⟨rfl, rfl, rfl⟩ := Pending.hook.inj (Option.some.inj (hc.symm.trans hc'))
    exact ⟨rfl, hrevokes⟩
  · refine absurd ?_ hb
    simp only [batch, he]

theorem intake_keeps {serving : Bool} {connection : Option Nat} {current : Nat → Bool}
    {stored : Bool} (hk : Keeps session h b)
    (hs : b.intake session call serving connection current stored now = some (b', o))
    (he : t.event = (.intake call serving connection current stored, now))
    (hcalls : t.before.calls = b.calls) : Keeps session (t :: h) b' := by
  unfold Bridge.intake at hs
  split at hs
  case h_2 => cases hs
  rename_i hook inserted arrived hpending
  have hpending' : t.before.calls call = some (.hook hook inserted arrived) := hcalls ▸ hpending
  dsimp only [Bridge.set] at hs
  split_ifs at hs with hlate hserving hown hold hfailed hgoes
  · obtain ⟨rfl, -⟩ := Prod.mk.inj (Option.some.inj hs)
    have hf : fresh session t = none := by
      refine Option.eq_none_iff_forall_ne_some.mpr fun hook' hf => ?_
      obtain ⟨-, -, rfl, -, hreplayed, htime⟩ := fresh_intake he hpending' hf
      simp [hreplayed, htime] at hlate
    have hk' : Keeps session h (b.set call none) := hk
    exact stale_keeps hk' hf fun ha =>
      let ⟨hi, _, hrest⟩ := active_intake he hpending' hf ha
      ⟨hi, hrest⟩
  all_goals
    push Not at hlate
    obtain ⟨hreplayed, hinserted, htime⟩ := hlate
  · obtain ⟨rfl, -⟩ := Prod.mk.inj (Option.some.inj hs)
    have hf : fresh session t = none := by
      refine Option.eq_none_iff_forall_ne_some.mpr fun hook' hf => ?_
      obtain ⟨-, rfl, -⟩ := fresh_intake he hpending' hf
      cases hserving
    refine hk.same rfl hf fun ha => ?_
    rcases (active_intake he hpending' hf ha).2.1 with hr | ht
    · exact hreplayed hr
    · exact htime ht
  · obtain ⟨rfl, -⟩ := Prod.mk.inj (Option.some.inj hs)
    have hf : fresh session t = none := by
      refine Option.eq_none_iff_forall_ne_some.mpr fun hook' hf => ?_
      exact hown (fresh_intake he hpending' hf).2.2.2.1
    refine hk.settled (Or.inr rfl) hf fun ha => ?_
    exact hown (active_intake he hpending' hf ha).2.2.2.1
  all_goals
    obtain rfl := Bool.eq_true_of_not_eq_false hserving
    obtain rfl := Bool.eq_true_of_not_eq_false hinserted
    have hf : fresh session t = some hook := by
      simp only [fresh, he, hpending']
      exact if_pos ⟨not_not.mp hown, Bool.eq_false_of_not_eq_true hreplayed,
        Bool.eq_true_of_not_eq_false htime⟩
  · obtain ⟨rfl, -⟩ := Prod.mk.inj (Option.some.inj hs)
    exact .of_state (ignored_keeps hk.1 hf hold.2 hold.1) rfl
  all_goals
    have hroute : Kept session (t :: h)
        (Bridge.route (State.of session b.state) hook connection current stored now).1 :=
      route_keeps hk.1 hf (fun hr => not_lt.mp fun hlt => hold ⟨hr, hlt⟩) (congrArg Prod.snd he)
    obtain ⟨rfl, -⟩ := Prod.mk.inj (Option.some.inj hs)
    exact .of_state hroute rfl

/-- Every section. -/
theorem next_keeps {e : Section} (hk : Keeps session h b)
    (hs : ({ b with clock := now } : Bridge).next session now e = some (b', o)) :
    Keeps session (⟨b, (e, now), b', o⟩ :: h) b' := by
  have hk' : Keeps session h { b with clock := now } := hk
  cases e with
  | publish call hook =>
    obtain ⟨rfl, -⟩ := Prod.mk.inj (Option.some.inj hs)
    exact hk'.same publish_state rfl (not_active rfl nofun rfl)
  | prune ids =>
    obtain ⟨rfl, -⟩ := Prod.mk.inj (Option.some.inj hs)
    exact hk'.same rfl rfl (not_active rfl nofun rfl)
  | intake call serving connection current stored => exact intake_keeps hk' hs rfl rfl
  | attach serving =>
    obtain ⟨rfl, -⟩ := Prod.mk.inj (Option.some.inj hs)
    exact hk'.settled attach_state rfl (not_active rfl nofun rfl)
  | poll call serving channel =>
    obtain ⟨rfl, -⟩ := Prod.mk.inj (Option.some.inj hs)
    exact hk'.settled poll_state rfl (not_active rfl nofun rfl)
  | look call frame clear => exact hk'.same (look_state hs) rfl (not_active rfl nofun rfl)
  | unready call => exact unready_keeps hk' hs rfl (not_active rfl nofun rfl)
  | reserve call pushes stored => exact reserve_keeps hk' hs rfl rfl rfl
  | interruptLook call clear =>
    exact hk'.same (interruptLook_state hs) rfl (not_active rfl nofun rfl)
  | interruptReserve call pushes => exact interruptReserve_keeps hk' hs rfl rfl rfl
  | keyed call written => exact hk'.same (keyed_state hs) rfl (not_active rfl nofun rfl)
  | observe call =>
    obtain ⟨rfl, -⟩ := Prod.mk.inj (Option.some.inj hs)
    exact hk'.same observe_state rfl (not_active rfl nofun rfl)
  | observed call ready connection current => exact observed_keeps hk' hs rfl rfl rfl
  | cancel call =>
    obtain ⟨rfl, -⟩ := Prod.mk.inj (Option.some.inj hs)
    exact hk'.same rfl rfl (not_active rfl nofun rfl)

theorem keeps (hr : (bridge session).Run h b) : Keeps session h b := by
  induction hr with
  | start hs =>
    refine ⟨?_, fun st hst => ?_⟩
    · rw [hs.2.1]
      exact kept_new rfl
    · cases hs.2.1.symm.trans hst
  | snoc hr hs ih => exact next_keeps ih hs.2.2

/-- What a reservation that returns messages found. -/
theorem reserve_messages {reserved : Except String (List String)} {stored : Bool}
    {pushes : List String} (hne : pushes ≠ [])
    (hs : b.reserve session call reserved stored now = some (b', .messages pushes)) :
    ∃ r st, b.calls call = some (.clear r) ∧ b.state = some st ∧
      Bridge.still session st r now = true ∧ reserved = .ok pushes := by
  unfold Bridge.reserve at hs
  split at hs
  case h_2 => cases hs
  rename_i r hr
  dsimp only [Bridge.set] at hs
  split at hs
  · rename_i st hst
    split_ifs at hs with hstill
    · split at hs
      · cases (Prod.mk.inj (Option.some.inj hs)).2
      · have ho := (Prod.mk.inj (Option.some.inj hs)).2
        split_ifs at ho
        · exact ⟨r, st, hr, hst, hstill, congrArg Except.ok (Reply.messages.inj ho)⟩
    · exact absurd (Reply.messages.inj (Prod.mk.inj (Option.some.inj hs)).2).symm hne
  · exact absurd (Reply.messages.inj (Prod.mk.inj (Option.some.inj hs)).2).symm hne

/-- The messages that a poll hands out. -/
def handedOut (t : BridgeStep) : Option (List String) :=
  match t.event.1, t.output with
  | .reserve call _ _, .messages pushes =>
    match t.before.calls call with
    | some (.clear r) => if r.route = .channel ∧ pushes ≠ [] then some pushes else none
    | _ => none
  | _, _ => none

/-- Any interleaving: what a poll hands out finds the session at rest for five seconds, and not
active since. -/
theorem claude_idle (hr : (bridge session).Run (newer ++ t :: older) b) {pushes : List String}
    (ht : handedOut t = some pushes) :
    ∃ at_, at_ + 5000 ≤ t.event.2 ∧ Rested session at_ older := by
  obtain ⟨s, ⟨e, now⟩, s', o⟩ := t
  obtain ⟨hbefore, -, -, hs⟩ := hr.split
  unfold handedOut at ht
  split at ht
  case h_2 => cases ht
  rename_i call reserved stored pushes' he ho
  obtain rfl : e = _ := he
  obtain rfl : o = _ := ho
  split at ht
  case h_2 => cases ht
  rename_i r hcall
  split_ifs at ht with hc
  obtain ⟨r', st, hr', hst, hstill, -⟩ := reserve_messages hc.2 hs
  obtain rfl := Pending.clear.inj (Option.some.inj (hr'.symm.trans hcall))
  simp only [Bridge.still, hc.1, decide_true, Bool.true_and, Bool.and_eq_true, Bool.not_eq_true',
    Option.any_eq_false, decide_eq_false_iff_not, not_lt] at hstill
  obtain ⟨⟨-, hsome⟩, helapsed⟩ := hstill
  obtain ⟨at_, hat⟩ := Option.isSome_iff_exists.mp hsome
  have helapsed : 5000 ≤ now - at_ := helapsed at_ hat
  have htime : at_ + 5000 ≤ now := by omega
  exact ⟨at_, htime, ((keeps hbefore).state hst).rested at_ hat⟩

end

/-- A hook of the session "s" with what a native payload says. -/
def native (id : String) (event : HookEvent) (occurred : Nat) (more : List (String × Json)) : Hook :=
  ⟨id, "s", event, .obj ([("session_id", .str "s"), ("hook_event_name", .str event.name)] ++ more),
    occurred, false⟩

def playBridge (l : List (Section × Nat)) : List BridgeStep × Bridge :=
  Machine.play (fun b e => if b.clock ≤ e.2 ∧ b.admits e.1 = true then
    ({ b with clock := e.2 } : Bridge).next "s" e.2 e.1 else none)
    [] ⟨[], none, fun _ => none, 0⟩ l

theorem run_playBridge (l : List (Section × Nat)) :
    (bridge "s").Run (playBridge l).1 (playBridge l).2 := by
  refine (Machine.Run.start (M := bridge "s") (s := ⟨[], none, fun _ => none, 0⟩)
    ⟨rfl, rfl, fun _ => rfl⟩).play fun b e b' o hn => ?_
  split_ifs at hn with hc
  exact ⟨hc.1, hc.2, hn⟩

/-- The session starts, its prompt is seen, and a poll comes five seconds later. -/
def started : List (Section × Nat) :=
  [(.publish 0 (native "e" .sessionStart 10 []), 10),
    (.intake 0 true (some 1) (fun _ => true) true, 10), (.observe 1, 100),
    (.observed 1 (some "g") (some 1) fun _ => true, 200), (.poll 2 true "s", 5200),
    (.look 2 (some "g") true, 5300), (.reserve 2 (.ok ["m"]) true, 5400)]

theorem playBridge_started : (playBridge started).1 ≠ [] :=
  List.isEmpty_eq_false_iff.mp (by decide +kernel)

/-- The poll hands the message out: the session has been at rest since its prompt was seen. -/
theorem claude_idle_started :
    let t := (playBridge started).1.head playBridge_started
    handedOut t = some ["m"] ∧
      ∃ at_, at_ + 5000 ≤ t.event.2 ∧ Rested "s" at_ (playBridge started).1.tail := by
  have hr : (bridge "s").Run ([] ++ (playBridge started).1.head playBridge_started ::
      (playBridge started).1.tail) (playBridge started).2 := by
    rw [List.nil_append, List.cons_head_tail]
    exact run_playBridge started
  exact ⟨by decide +kernel, claude_idle hr (by decide +kernel : _ = some ["m"])⟩

/-- The session stops, the hook of its next prompt is lost, and it uses a tool. -/
def working : List (Section × Nat) :=
  [(.publish 0 (native "e" .stop 10 [("stop_hook_active", .bool true)]), 10),
    (.intake 0 true (some 1) (fun _ => true) true, 10),
    (.publish 1 (native "f" .preToolUse 5000 []), 5000),
    (.intake 1 true (some 1) (fun _ => true) true, 5000), (.poll 2 true "s", 5200),
    (.look 2 none true, 5300), (.reserve 2 (.ok ["m"]) true, 5400)]

theorem playBridge_working : (playBridge working).1 ≠ [] ∧
    (playBridge working).1.tail.drop 2 ≠ [] :=
  ⟨List.isEmpty_eq_false_iff.mp (by decide +kernel),
    List.isEmpty_eq_false_iff.mp (by decide +kernel)⟩

/-- Messages are handed out after the use of a tool, with no rest since. -/
theorem claude_handed_out_working :
    ∃ t mid u past b, (bridge "s").Run (t :: (mid ++ u :: past)) b ∧
      handedOut t = some ["m"] ∧ (fresh "s" u).map (·.event) = some .preToolUse ∧
      (mid.all fun v => (fresh "s" v).isNone && !(v.event.1 matches .observed _ _ _ _)) = true := by
  refine ⟨(playBridge working).1.head playBridge_working.1, (playBridge working).1.tail.take 2,
    ((playBridge working).1.tail.drop 2).head playBridge_working.2,
    ((playBridge working).1.tail.drop 2).tail, (playBridge working).2, ?_, by decide +kernel,
    by decide +kernel, by decide +kernel⟩
  rw [List.cons_head_tail, List.take_append_drop, List.cons_head_tail]
  exact run_playBridge working

end Agend.Claude
