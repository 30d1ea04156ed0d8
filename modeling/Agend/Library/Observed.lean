import Agend.Library.Observation

/-! What every run of checks keeps. -/
namespace Agend.Library.Checking

section

variable {κ γ ω α τ : Type} {C : Checking κ γ ω α τ} {r r' : Observation κ γ ω α} {now : Nat}

/-- Something is known: a success or an error. -/
def Known (r : Observation κ γ ω α) : Prop := r.latest.isSome = true ∨ r.error.isSome = true

/-- What later calls leave of a row, as long as it is of one generation. -/
structure Later (C : Checking κ γ ω α τ) (r r' : Observation κ γ ω α) : Prop where
  generation : r'.generation = r.generation
  attempt : r.attempt ≤ r'.attempt
  same : r'.attempt = r.attempt → r'.startedMs = r.startedMs ∧ r'.scope = r.scope ∧
    (r.completedMs.isSome = true → r'.completedMs.isSome = true)
  due : r.attempt < r'.attempt → r.startedMs + C.intervalMs ≤ r'.startedMs
  revision : r.revision ≤ r'.revision
  known : Known r → Known r'
  shown : r'.revision = r.revision → Known r → r'.latest = r.latest ∧ r'.error = r.error

theorem Later.refl : Later C r r :=
  ⟨rfl, le_rfl, fun _ => ⟨rfl, rfl, fun h => h⟩, fun h => absurd h (lt_irrefl _), le_rfl,
    fun h => h, fun _ _ => ⟨rfl, rfl⟩⟩

theorem later_started (hdue : C.intervalMs ≤ now - r.startedMs) : Later C r (r.started now) := by
  refine ⟨rfl, Nat.le_succ _, fun h => absurd h (Nat.succ_ne_self _), fun _ => ?_, le_rfl,
    fun h => h, fun _ _ => ⟨rfl, rfl⟩⟩
  have := C.intervalMs_pos
  simp only [Observation.started]
  omega

theorem Later.trans {r'' : Observation κ γ ω α} (h : Later C r r') (h' : Later C r' r'') :
    Later C r r'' where
  generation := h'.generation.trans h.generation
  attempt := h.attempt.trans h'.attempt
  same := by
    intro he
    have h1 : r'.attempt = r.attempt := le_antisymm (he ▸ h'.attempt) h.attempt
    obtain ⟨hstart, hscope, hdone⟩ := h.same h1
    obtain ⟨hstart', hscope', hdone'⟩ := h'.same (he.trans h1.symm)
    exact ⟨hstart'.trans hstart, hscope'.trans hscope, fun hc => hdone' (hdone hc)⟩
  due := by
    intro hlt
    rcases h.attempt.lt_or_eq with h1 | h1
    · rcases h'.attempt.lt_or_eq with h2 | h2
      · have := h.due h1
        have := h'.due h2
        omega
      · rw [(h'.same h2.symm).1]
        exact h.due h1
    · rw [← (h.same h1.symm).1]
      exact h'.due (h1 ▸ hlt)
  revision := h.revision.trans h'.revision
  known hk := h'.known (h.known hk)
  shown := by
    intro he hk
    have h1 : r'.revision = r.revision := le_antisymm (he ▸ h'.revision) h.revision
    obtain ⟨hl, hr⟩ := h.shown h1 hk
    obtain ⟨hl', hr'⟩ := h'.shown (he.trans h1.symm) (h.known hk)
    exact ⟨hl'.trans hl, hr'.trans hr⟩

variable [DecidableEq α]

theorem completed_key {result : Except String α} : (C.completed now result r).key = r.key := by
  cases result <;> rfl

theorem completed_acknowledged {result : Except String α} :
    (C.completed now result r).acknowledgedRevision = r.acknowledgedRevision := by
  cases result <;> rfl

theorem completed_eq {result : Except String α} :
    (C.completed now result r).generation = r.generation ∧
      (C.completed now result r).attempt = r.attempt ∧
      (C.completed now result r).startedMs = r.startedMs ∧
      (C.completed now result r).scope = r.scope ∧
      (C.completed now result r).completedMs = some now ∧
      (C.completed now result r).latest = (r.sampled result).latest ∧
      (C.completed now result r).error = (r.sampled result).error ∧
      (C.completed now result r).revision =
        if C.isNews r (r.sampled result) = true then r.revision + 1 else r.revision := by
  cases result <;> exact ⟨rfl, rfl, rfl, rfl, rfl, rfl, rfl, rfl⟩

omit [DecidableEq α] in
theorem known_sampled {result : Except String α} : Known (r.sampled result) := by
  cases result
  · exact Or.inr rfl
  · exact Or.inl rfl

theorem isNews_eq_false (hk : Known r) (h : C.isNews r r' = false) :
    r'.latest = r.latest ∧ r'.error = r.error := by
  simp only [isNews, Bool.and_eq_false_iff, decide_eq_false_iff_not, not_not, Bool.or_eq_false_iff] at h
  rcases h with h | h
  · obtain ⟨hl, he⟩ := Prod.mk.inj h
    exact ⟨hl.symm, he.symm⟩
  · rcases hk with hk | hk
    · rw [hk] at h
      cases h.1.1.2
    · rw [hk] at h
      cases h.1.2

theorem known_completed {result : Except String α} : Known (C.completed now result r) := by
  obtain ⟨-, -, -, -, -, hlatest, herror, -⟩ :=
    @completed_eq κ γ ω α τ C r now _ result
  unfold Known
  rw [hlatest, herror]
  exact known_sampled

theorem later_completed {result : Except String α} : Later C r (C.completed now result r) := by
  obtain ⟨hgeneration, hattempt, hstarted, hscope, hdone, hlatest, herror, hrevision⟩ :=
    @completed_eq κ γ ω α τ C r now _ result
  refine ⟨hgeneration, hattempt.ge, fun _ => ⟨hstarted, hscope, fun _ => hdone ▸ rfl⟩,
    fun h => absurd h (hattempt ▸ lt_irrefl _), ?_, fun _ => known_completed, fun he hk => ?_⟩
  · rw [hrevision]
    split_ifs <;> omega
  · rw [hrevision] at he
    split_ifs at he with hnews
    · exact absurd he (Nat.succ_ne_self _)
    · rw [hlatest, herror]
      exact isNews_eq_false hk (Bool.eq_false_iff.mpr hnews)

end

section

variable {κ γ ω α τ : Type} [DecidableEq κ] [DecidableEq γ] [DecidableEq ω] [DecidableEq α]

/-- The call is accepted for the key. -/
inductive Accepted (C : Checking κ γ ω α τ) (k : κ) :
    Check κ γ ω α τ → Except String (Checked κ γ ω α) → Prop
  | begun (now drawn r) : Accepted C k (.begin_ k now drawn) (.ok (.begun (some r)))
  | finished {ticket} (now result) (hk : C.ticketKey ticket = k) :
    Accepted C k (.finish ticket now result) (.ok (.done true))
  | acknowledged (g revision) : Accepted C k (.acknowledge k g revision) (.ok (.done true))

/-- What a call does to the row of a key. -/
inductive Move (C : Checking κ γ ω α τ) (s : Observations κ γ ω α) (k : κ) :
    Check κ γ ω α τ → Except String (Checked κ γ ω α) → Option (Observation κ γ ω α) →
      Option (Observation κ γ ω α) → Prop
  | other {c o x} (h : ¬ Accepted C k c o) : Move C s k c o x x
  | dropped {x} : Move C s k (.rescope k none) (.ok .rescoped) x none
  | created {x now g scope} (hscope : s.scope k = some scope)
      (hold : ∀ r, x = some r → r.scope ≠ scope) :
    Move C s k (.begin_ k now (.ok g)) (.ok (.begun (some ((Observation.new k g scope now).started
      now)))) x (some ((Observation.new k g scope now).started now))
  | begun {r now drawn} (hkey : r.key = k) (hscope : s.scope k = some r.scope)
      (hdue : C.intervalMs ≤ now - r.startedMs) :
    Move C s k (.begin_ k now drawn) (.ok (.begun (some (r.started now)))) (some r)
      (some (r.started now))
  | finished {r ticket now result} (hkey : r.key = k) (hk : C.ticketKey ticket = k)
      (hc : C.completes s ticket now r = true) :
    Move C s k (.finish ticket now result) (.ok (.done true)) (some r)
      (some (C.completed now result r))
  | acknowledged {r} (hkey : r.key = k) (hne : r.revision ≠ 0)
      (hnew : r.acknowledgedRevision ≠ r.revision) (hscope : s.scope k = some r.scope) :
    Move C s k (.acknowledge k r.generation r.revision) (.ok (.done true)) (some r)
      (some { r with acknowledgedRevision := r.revision })

variable {C : Checking κ γ ω α τ} {scopes : (κ → Option ω) → Prop} {own : Check κ γ ω α τ → Prop}
  {s s' : Observations κ γ ω α} {c : Check κ γ ω α τ} {o : Except String (Checked κ γ ω α)}
  {k : κ} {g : γ} {r r' : Observation κ γ ω α} {now : Nat}
  {x x' : Option (Observation κ γ ω α)}

omit [DecidableEq γ] [DecidableEq ω] [DecidableEq α] in
theorem read_eq_ok (h : C.read s k = .ok x) : s.rows.get k = x := by
  unfold read at h
  split at h
  · rename_i hnone
    exact hnone.trans (Except.ok.inj h)
  · rename_i r hr
    split_ifs at h
    exact hr.trans (Except.ok.inj h)

omit [DecidableEq γ] in
theorem begin_move {drawn : Except String γ} (h : C.begin_ s k now drawn = .ok (s', x)) (j : κ) :
    Move C s j (.begin_ k now drawn) (.ok (.begun x)) (s.rows.get j) (s'.rows.get j) := by
  unfold begin_ at h
  split at h
  · obtain ⟨rfl, rfl⟩ := Prod.mk.inj (Except.ok.inj h)
    exact .other fun ha => by cases ha
  · rename_i scope hscope
    obtain ⟨read, hread, h⟩ := bind_eq_ok.mp h
    have hget := read_eq_ok hread
    split_ifs at h with hrecent
    · obtain ⟨rfl, rfl⟩ := Prod.mk.inj (Except.ok.inj h)
      exact .other fun ha => by cases ha
    · obtain ⟨r, hr, h⟩ := bind_eq_ok.mp h
      obtain ⟨-, h⟩ := require_bind_eq_ok.mp h
      obtain ⟨rfl, rfl⟩ := Prod.mk.inj (Except.ok.inj h)
      unfold rowFor at hr
      split at hr
      · rename_i r0 hold
        obtain rfl := Except.ok.inj hr
        obtain ⟨hsome, hscoped⟩ := Option.filter_eq_some_iff.mp hold
        have hrow : s.rows.get k = some r0 := hget.trans hsome
        have hkey : r0.key = k := (Table.get_eq_some.mp hrow).2
        have hdue : C.intervalMs ≤ now - r0.startedMs := by
          simp only [hold, Option.any_some, decide_eq_true_eq, not_lt] at hrecent
          exact hrecent
        have hcurrent : s.scope k = some r0.scope := by simpa [of_decide_eq_true hscoped] using hscope
        have hput : (s.rows.put (r0.started now)).get j =
            if j = k then some (r0.started now) else s.rows.get j := hkey ▸ Table.get_put
        change Move C s j _ _ _ ((s.rows.put (r0.started now)).get j)
        rw [hput]
        split_ifs with hj
        · subst hj
          rw [hrow]
          exact .begun hkey hcurrent hdue
        · exact .other fun ha => by cases ha; exact hj rfl
      · rename_i hold
        obtain ⟨g, rfl, rfl⟩ := map_eq_ok.mp hr
        change Move C s j _ _ _ ((s.rows.put ((Observation.new k g scope now).started now)).get j)
        rw [Table.get_put]
        split_ifs with hj
        · obtain rfl : j = k := hj
          refine .created hscope fun r hr he => ?_
          have hsome : read = some r := hget.symm.trans hr
          rw [hsome, inScope, Option.filter_eq_none_iff] at hold
          exact hold r rfl (decide_eq_true he)
        · exact .other fun ha => by cases ha; exact hj rfl

omit [DecidableEq γ] in
theorem finish_move {ticket : τ} {result : Except String α} {b : Bool}
    (h : C.finish s ticket now result = .ok (s', b)) (j : κ) :
    Move C s j (.finish ticket now result) (.ok (.done b)) (s.rows.get j) (s'.rows.get j) := by
  obtain ⟨-, h⟩ := require_bind_eq_ok.mp h
  obtain ⟨read, hread, h⟩ := bind_eq_ok.mp h
  have hget := read_eq_ok hread
  split at h
  · obtain ⟨rfl, rfl⟩ := Prod.mk.inj (Except.ok.inj h)
    exact .other fun ha => by cases ha
  · rename_i r
    split_ifs at h with hc
    · obtain ⟨-, h⟩ := require_bind_eq_ok.mp h
      obtain ⟨rfl, rfl⟩ := Prod.mk.inj (Except.ok.inj h)
      have hkey : r.key = C.ticketKey ticket := (Table.get_eq_some.mp hget).2
      change Move C s j _ _ _ ((s.rows.put (C.completed now result r)).get j)
      rw [Table.get_put, completed_key, hkey]
      split_ifs with hj
      · obtain rfl := hj
        rw [hget]
        exact .finished hkey rfl hc
      · exact .other fun ha => by cases ha; exact hj (Eq.symm ‹_›)
    · obtain ⟨rfl, rfl⟩ := Prod.mk.inj (Except.ok.inj h)
      exact .other fun ha => by cases ha

theorem acknowledge_move {revision : Nat} {b : Bool}
    (h : C.acknowledge s k g revision = .ok (s', b)) (j : κ) :
    Move C s j (.acknowledge k g revision) (.ok (.done b)) (s.rows.get j) (s'.rows.get j) := by
  obtain ⟨read, hread, h⟩ := bind_eq_ok.mp h
  have hget := read_eq_ok hread
  split at h
  · obtain ⟨rfl, rfl⟩ := Prod.mk.inj (Except.ok.inj h)
    exact .other fun ha => by cases ha
  · rename_i r
    split_ifs at h with hc
    · obtain ⟨rfl, rfl⟩ := Prod.mk.inj (Except.ok.inj h)
      obtain ⟨rfl, rfl, hne, hnew, hscope⟩ := hc
      obtain rfl : r.key = k := (Table.get_eq_some.mp hget).2
      change Move C s j _ _ _ ((s.rows.put { r with acknowledgedRevision := r.revision }).get j)
      rw [Table.get_put]
      split_ifs with hj
      · obtain rfl := hj
        rw [hget]
        exact .acknowledged rfl hne hnew hscope
      · exact .other fun ha => by cases ha; exact hj rfl
    · obtain ⟨rfl, rfl⟩ := Prod.mk.inj (Except.ok.inj h)
      exact .other fun ha => by cases ha

omit [DecidableEq γ] in
theorem rescope_move {scope : Option ω} (j : κ) : Move C s j (.rescope k scope) (.ok .rescoped)
    (s.rows.get j) ((rescope s k scope).rows.get j) := by
  unfold rescope
  cases scope with
  | none =>
    simp only [Option.isNone_none, if_true, Table.get_erase]
    split_ifs with hj
    · obtain rfl := hj
      exact .dropped
    · exact .other fun ha => by cases ha
  | some w => exact .other fun ha => by cases ha

/-- Every call, for every key. -/
theorem step_move (hs : (C.machine scopes own).step s c s' o) (j : κ) :
    Move C s j c o (s.rows.get j) (s'.rows.get j) := by
  have hcall : C.call s c = (s', o) := hs.2
  unfold call settle at hcall
  split at hcall
  · rename_i t answer hexec
    obtain ⟨rfl, rfl⟩ := Prod.mk.inj hcall
    cases c with
    | rescope key scope =>
      obtain ⟨rfl, rfl⟩ := Prod.mk.inj (Except.ok.inj hexec)
      exact rescope_move j
    | begin_ key now drawn =>
      obtain ⟨x, hx, he⟩ := map_eq_ok.mp hexec
      obtain ⟨rfl, rfl⟩ := Prod.mk.inj he
      exact begin_move hx j
    | finish ticket now result =>
      obtain ⟨x, hx, he⟩ := map_eq_ok.mp hexec
      obtain ⟨rfl, rfl⟩ := Prod.mk.inj he
      exact finish_move hx j
    | acknowledge key generation revision =>
      obtain ⟨x, hx, he⟩ := map_eq_ok.mp hexec
      obtain ⟨rfl, rfl⟩ := Prod.mk.inj he
      exact acknowledge_move hx j
  · obtain ⟨rfl, rfl⟩ := Prod.mk.inj hcall
    exact .other fun ha => by cases ha

omit [DecidableEq γ] in
/-- A row after a call is what the call left of the row before, or a new one. -/
theorem Move.later (h : Move C s k c o x (some r')) :
    (∃ r, x = some r ∧ Later C r r') ∨ ∃ now g scope, c = .begin_ k now (.ok g) ∧
      o = .ok (.begun (some r')) ∧ r' = (Observation.new k g scope now).started now := by
  generalize hy : some r' = y at h
  cases h with
  | other h => exact Or.inl ⟨r', hy.symm, .refl⟩
  | dropped => cases hy
  | created hscope hold =>
    obtain rfl := Option.some.inj hy
    exact Or.inr ⟨_, _, _, rfl, rfl, rfl⟩
  | begun hkey hscope hdue =>
    obtain rfl := Option.some.inj hy
    exact Or.inl ⟨_, rfl, later_started hdue⟩
  | finished hkey hk hc =>
    obtain rfl := Option.some.inj hy
    exact Or.inl ⟨_, rfl, later_completed⟩
  | acknowledged hkey hne hnew hscope =>
    obtain rfl := Option.some.inj hy
    exact Or.inl ⟨_, rfl, rfl, le_rfl, fun _ => ⟨rfl, rfl, fun h => h⟩,
      fun h => absurd h (lt_irrefl _), le_rfl, fun h => h, fun _ _ => ⟨rfl, rfl⟩⟩

/-- What every row is. -/
structure Sound (r : Observation κ γ ω α) : Prop where
  attempt : r.attempt ≠ 0
  known : r.revision ≠ 0 → Known r
  acknowledged : r.acknowledgedRevision ≤ r.revision

omit [DecidableEq γ] in
theorem Move.sound (h : Move C s k c o x (some r')) (hx : ∀ r, x = some r → Sound r) :
    Sound r' := by
  generalize hy : some r' = y at h
  cases h with
  | other h => exact hx r' hy.symm
  | dropped => cases hy
  | created hscope hold =>
    obtain rfl := Option.some.inj hy
    exact ⟨Nat.succ_ne_zero _, fun h => absurd rfl h, le_rfl⟩
  | begun hkey hscope hdue =>
    obtain rfl := Option.some.inj hy
    obtain ⟨-, hknown, hack⟩ := hx _ rfl
    exact ⟨Nat.succ_ne_zero _, hknown, hack⟩
  | finished hkey hk hc =>
    obtain rfl := Option.some.inj hy
    obtain ⟨hattempt, -, hack⟩ := hx _ rfl
    refine ⟨fun h0 => hattempt (Nat.le_zero.mp (h0 ▸ later_completed.attempt)),
      fun _ => known_completed, ?_⟩
    rw [completed_acknowledged]
    exact hack.trans later_completed.revision
  | acknowledged hkey hne hnew hscope =>
    obtain rfl := Option.some.inj hy
    obtain ⟨hattempt, hknown, -⟩ := hx _ rfl
    exact ⟨hattempt, hknown, le_rfl⟩

abbrev Calls (κ γ ω α τ : Type) [DecidableEq κ] : Type :=
  List (Transition (Observations κ γ ω α) (Check κ γ ω α τ) (Except String (Checked κ γ ω α)))

variable {h newer older : Calls κ γ ω α τ}
  {t : Transition (Observations κ γ ω α) (Check κ γ ω α τ) (Except String (Checked κ γ ω α))}

theorem sound (hr : (C.machine scopes own).Reachable s) (hget : s.rows.get k = some r) :
    Sound r := by
  refine hr.invariant (P := fun s => ∀ r, s.rows.get k = some r → Sound r) ?_ ?_ r hget
  · rintro s ⟨hs, -⟩ r hget
    have hmem := (Table.get_eq_some.mp hget).1
    rw [hs] at hmem
    cases hmem
  · intro s c s' o ih hs r' hget
    have hm := step_move hs k
    rw [hget] at hm
    exact hm.sound ih

/-- The call recorded an attempt of the key. -/
def Begins (k : κ) (now : Nat) (r : Observation κ γ ω α)
    (t : Transition (Observations κ γ ω α) (Check κ γ ω α τ) (Except String (Checked κ γ ω α))) :
    Prop :=
  (∃ drawn, t.event = .begin_ k now drawn) ∧ t.output = .ok (.begun (some r))

/-- The call was accepted as the end of an attempt, the row's as it was before. -/
def Completes (C : Checking κ γ ω α τ) (k : κ) (r : Observation κ γ ω α)
    (t : Transition (Observations κ γ ω α) (Check κ γ ω α τ) (Except String (Checked κ γ ω α))) :
    Prop :=
  (∃ ticket now result, t.event = .finish ticket now result ∧ C.ticketKey ticket = k) ∧
    t.output = .ok (.done true) ∧ t.before.rows.get k = some r

/-- A generation that a first attempt brings was not there before. -/
def Fresh (h : Calls κ γ ω α τ) : Prop :=
  h.Pairwise fun u t => ∀ k now g r, u.event = .begin_ k now (.ok g) →
    u.output = .ok (.begun (some r)) → r.attempt = 1 →
    ∀ x, t.after.rows.get k = some x → x.generation ≠ g

/-- As long as a row is of the same generation it is what later calls leave of it. -/
theorem line (hr : (C.machine scopes own).Run (newer ++ t :: older) s)
    (hf : Fresh (newer ++ t :: older)) (ht : t.after.rows.get k = some r)
    (hs : s.rows.get k = some r') (hg : r'.generation = r.generation) : Later C r r' := by
  induction newer generalizing s r' with
  | nil =>
    cases hr with
    | snoc hr hstep =>
      obtain rfl := Option.some.inj (ht.symm.trans hs)
      exact .refl
  | cons u newer ih =>
    cases hr with
    | snoc hr hstep =>
      obtain ⟨hfresh, hf⟩ := List.pairwise_cons.mp hf
      have hm := step_move hstep k
      rw [hs] at hm
      rcases hm.later with ⟨r0, hr0, hl⟩ | ⟨now, g, scope, he, ho, rfl⟩
      · exact (ih hr hf hr0 (hl.generation.symm.trans hg)).trans hl
      · exact absurd hg.symm (hfresh t (List.mem_append_right _ List.mem_cons_self) k now g _ he ho
          rfl r ht)

/-- An attempt is of a new row, or the next one of a row whose last is not recent. -/
theorem begins_eq (hs : (C.machine scopes own).step t.before t.event t.after t.output)
    (hb : Begins k now r t) : t.after.rows.get k = some r ∧ r.startedMs = now ∧
      ((∃ g, t.event = .begin_ k now (.ok g) ∧ r.generation = g ∧ r.attempt = 1) ∨
      ∃ r0, t.before.rows.get k = some r0 ∧ r = r0.started now ∧ Later C r0 r) := by
  obtain ⟨⟨drawn, he⟩, ho⟩ := hb
  have hm := step_move hs k
  rw [he, ho] at hm
  generalize hx : t.before.rows.get k = x at hm
  generalize hy : t.after.rows.get k = y at hm
  cases hm with
  | other hne => exact absurd (.begun now drawn r) hne
  | created hscope hold => exact ⟨rfl, rfl, Or.inl ⟨_, he, rfl, rfl⟩⟩
  | @begun r0 _ _ hkey hscope hdue =>
    exact ⟨rfl, rfl, Or.inr ⟨r0, rfl, rfl, later_started hdue⟩⟩

theorem finish_eq (hs : (C.machine scopes own).step t.before t.event t.after t.output)
    {ticket : τ} {result : Except String α} (he : t.event = .finish ticket now result)
    (ho : t.output = .ok (.done true)) : ∃ r, t.before.rows.get (C.ticketKey ticket) = some r ∧
      r.key = C.ticketKey ticket ∧ C.completes t.before ticket now r = true ∧
      t.after.rows.get (C.ticketKey ticket) = some (C.completed now result r) := by
  have hm := step_move hs (C.ticketKey ticket)
  rw [he, ho] at hm
  generalize hx : t.before.rows.get (C.ticketKey ticket) = x at hm
  generalize hy : t.after.rows.get (C.ticketKey ticket) = y at hm
  cases hm with
  | other hne => exact absurd (.finished now result rfl) hne
  | finished hkey hk hc => exact ⟨_, rfl, hkey, hc, rfl⟩

theorem acknowledge_eq (hs : (C.machine scopes own).step t.before t.event t.after t.output)
    {revision : Nat} (he : t.event = .acknowledge k g revision)
    (ho : t.output = .ok (.done true)) : ∃ r, t.before.rows.get k = some r ∧ r.generation = g ∧
      r.revision = revision ∧ revision ≠ 0 ∧ r.acknowledgedRevision ≠ revision ∧
      t.before.scope k = some r.scope ∧
      t.after.rows.get k = some { r with acknowledgedRevision := revision } := by
  have hm := step_move hs k
  rw [he, ho] at hm
  generalize hx : t.before.rows.get k = x at hm
  generalize hy : t.after.rows.get k = y at hm
  cases hm with
  | other hne => exact absurd (.acknowledged g revision) hne
  | acknowledged hkey hne hnew hscope => exact ⟨_, rfl, rfl, rfl, hne, hnew, hscope, rfl⟩

omit [DecidableEq γ] [DecidableEq α] in
theorem completes_eq_true {ticket : τ} (hc : C.completes s ticket now r = true) :
    C.answers ticket r = true ∧ r.completedMs = none ∧ r.startedMs ≤ now ∧
      s.scope r.key = some r.scope := by
  simp only [completes, Bool.and_eq_true, Option.isNone_iff_eq_none, decide_eq_true_eq] at hc
  exact ⟨hc.1.1.1, hc.1.1.2, hc.1.2, hc.2⟩

/-- The row's attempt is the last one that was recorded for its key. -/
def Newest (k : κ) (r : Observation κ γ ω α) (h : Calls κ γ ω α τ) : Prop :=
  ∃ mid b past, h = mid ++ b :: past ∧
    (∃ now r0, Begins k now r0 b ∧ r0.generation = r.generation ∧ r0.scope = r.scope ∧
      r0.attempt = r.attempt ∧ r0.startedMs = r.startedMs) ∧
    ∀ v ∈ mid, ∀ now r0, ¬ Begins k now r0 v

omit [DecidableEq γ] [DecidableEq ω] [DecidableEq α] in
theorem Newest.cons (hn : Newest k r h) (hb : ∀ now r0, ¬ Begins k now r0 t)
    (hg : r'.generation = r.generation) (hscope : r'.scope = r.scope)
    (hattempt : r'.attempt = r.attempt) (hstart : r'.startedMs = r.startedMs) :
    Newest k r' (t :: h) := by
  obtain ⟨mid, b, past, rfl, ⟨now, r0, hb0, hg0, hscope0, hattempt0, hstart0⟩, hmid⟩ := hn
  refine ⟨t :: mid, b, past, rfl, ⟨now, r0, hb0, hg0.trans hg.symm, hscope0.trans hscope.symm,
    hattempt0.trans hattempt.symm, hstart0.trans hstart.symm⟩, fun v hv => ?_⟩
  rcases List.mem_cons.mp hv with rfl | hv
  · exact hb
  · exact hmid v hv

theorem newest_row (hr : (C.machine scopes own).Run h s) (hget : s.rows.get k = some r) :
    Newest k r h := by
  refine hr.invariant (P := fun h s => ∀ r, s.rows.get k = some r → Newest k r h) ?_ ?_ r hget
  · rintro s ⟨hs, -⟩ r hget
    have hmem := (Table.get_eq_some.mp hget).1
    rw [hs] at hmem
    cases hmem
  · intro h s c s' o _ ih hs r' hget
    have hm := step_move hs k
    rw [hget] at hm
    generalize hx : s.rows.get k = x at hm
    generalize hy : some r' = y at hm
    cases hm with
    | other hne =>
      refine (ih r' (hx.trans hy.symm)).cons ?_ rfl rfl rfl rfl
      rintro now r0 ⟨⟨drawn, rfl⟩, rfl⟩
      exact hne (.begun now drawn r0)
    | dropped => cases hy
    | created hscope hold =>
      obtain rfl := Option.some.inj hy
      exact ⟨[], _, h, rfl, ⟨_, _, ⟨⟨_, rfl⟩, rfl⟩, rfl, rfl, rfl, rfl⟩, List.forall_mem_nil _⟩
    | begun hkey hscope hdue =>
      obtain rfl := Option.some.inj hy
      exact ⟨[], _, h, rfl, ⟨_, _, ⟨⟨_, rfl⟩, rfl⟩, rfl, rfl, rfl, rfl⟩, List.forall_mem_nil _⟩
    | finished hkey hk hc =>
      obtain rfl := Option.some.inj hy
      obtain ⟨hg, hattempt, hstart, hscope, -⟩ := @completed_eq κ γ ω α τ C _ _ _ _
      refine (ih _ hx).cons ?_ hg hscope hattempt hstart
      rintro now r0 ⟨⟨drawn, he⟩, -⟩
      cases he
    | acknowledged hkey hne hnew hscope =>
      obtain rfl := Option.some.inj hy
      refine (ih _ hx).cons ?_ rfl rfl rfl rfl
      rintro now r0 ⟨⟨drawn, he⟩, -⟩
      cases he

/-- The success that a call was accepted with, for a row of the generation. -/
def success (C : Checking κ γ ω α τ) (k : κ) (g : γ)
    (t : Transition (Observations κ γ ω α) (Check κ γ ω α τ) (Except String (Checked κ γ ω α))) :
    Option α :=
  match t.event, t.output with
  | .finish ticket _ (.ok v), .ok (.done true) =>
    if C.ticketKey ticket = k ∧ (t.after.rows.get k).map (·.generation) = some g then some v
    else none
  | _, _ => none

/-- What a run of checks keeps, when no generation comes twice. -/
structure Tracked (C : Checking κ γ ω α τ) (h : Calls κ γ ω α τ) (s : Observations κ γ ω α) :
    Prop where
  /-- An attempt is completed at most once. -/
  once : h.Pairwise fun u t => ∀ k r r', C.Completes k r t → C.Completes k r' u →
    r'.generation = r.generation → r'.attempt ≠ r.attempt
  /-- It is completed while it is the newest of the scope that its key has, not before its
  start. -/
  newest : ∀ newer older t, h = newer ++ t :: older → ∀ ticket now result,
    t.event = .finish ticket now result → t.output = .ok (.done true) →
    ∃ r, t.before.rows.get (C.ticketKey ticket) = some r ∧ C.answers ticket r = true ∧
      t.before.scope (C.ticketKey ticket) = some r.scope ∧ r.startedMs ≤ now ∧
      Newest (C.ticketKey ticket) r older
  /-- Attempts of one generation start an interval apart. -/
  spaced : h.Pairwise fun u t => ∀ k now now' r r', Begins k now r t → Begins k now' r' u →
    r'.generation = r.generation → r.attempt < r'.attempt ∧ now + C.intervalMs ≤ now'
  /-- The latest value is that of the last accepted success. -/
  latest : ∀ k r, s.rows.get k = some r → r.latest = h.findSome? (C.success k r.generation)
  /-- Accepted news raises the revision by one, and nothing else changes it. -/
  raised : ∀ t ∈ h, ∀ k r r', t.before.rows.get k = some r → t.after.rows.get k = some r' →
    r'.generation = r.generation → (C.Completes k r t ∧ C.isNews r r' = true ∧
      r'.revision = r.revision + 1) ∨
      ¬ (C.Completes k r t ∧ C.isNews r r' = true) ∧ r'.revision = r.revision
  /-- A new generation starts with nothing known, and nothing acknowledged. -/
  unknown : ∀ t ∈ h, ∀ k r', t.after.rows.get k = some r' →
    (∀ r, t.before.rows.get k = some r → r.generation ≠ r'.generation) →
    r'.revision = 0 ∧ r'.acknowledgedRevision = 0 ∧ r'.latest = none ∧ r'.error = none
  /-- An acknowledgement is of the revision that the row has in the scope of its key. -/
  acknowledged : ∀ t ∈ h, ∀ k g revision, t.event = .acknowledge k g revision →
    t.output = .ok (.done true) → ∃ r, t.before.rows.get k = some r ∧ r.generation = g ∧
      r.revision = revision ∧ revision ≠ 0 ∧ r.acknowledgedRevision < revision ∧
      t.before.scope k = some r.scope ∧
      t.after.rows.get k = some { r with acknowledgedRevision := revision }
  /-- Only an acknowledgement acknowledges. -/
  unacknowledged : ∀ t ∈ h, ∀ k r r', t.before.rows.get k = some r →
    t.after.rows.get k = some r' → r'.generation = r.generation →
    r'.acknowledgedRevision ≠ r.acknowledgedRevision →
    t.event = .acknowledge k r.generation r.revision ∧ t.output = .ok (.done true)
  /-- A revision shows one thing only. -/
  shown : h.Pairwise fun u t => ∀ k r r', t.after.rows.get k = some r →
    u.after.rows.get k = some r' → r'.generation = r.generation → r'.revision = r.revision →
    r.revision ≠ 0 → r'.latest = r.latest ∧ r'.error = r.error

omit [DecidableEq γ] [DecidableEq ω] [DecidableEq α] in
theorem Fresh.of_append {u : Transition (Observations κ γ ω α) (Check κ γ ω α τ)
    (Except String (Checked κ γ ω α))} (hf : Fresh (newer ++ u :: older)) : Fresh (u :: older) :=
  (List.pairwise_append.mp hf).2.1

theorem tracked_once (hr : (C.machine scopes own).Run h s) (hf : Fresh h) :
    h.Pairwise fun u t => ∀ k r r', C.Completes k r t → C.Completes k r' u →
      r'.generation = r.generation → r'.attempt ≠ r.attempt := by
  refine Machine.pairwise_of_split ?_
  rintro newer mid older u t rfl k r r' ⟨⟨ticket, now, result, he, rfl⟩, ho, hbefore⟩
    ⟨⟨ticket', now', result', he', hkey'⟩, ho', hbefore'⟩ hg hattempt
  obtain ⟨hmid, hstep'⟩ := hr.split
  obtain ⟨-, hstep⟩ := hmid.split
  obtain ⟨r0, hr0, -, -, hafter⟩ := finish_eq hstep he ho
  obtain rfl := Option.some.inj (hr0.symm.trans hbefore)
  obtain ⟨r1, hr1, -, hc, -⟩ := finish_eq hstep' he' ho'
  rw [hkey'] at hr1
  obtain rfl := Option.some.inj (hr1.symm.trans hbefore')
  obtain ⟨hgeneration, hsame, -, -, hdone, -⟩ := @completed_eq κ γ ω α τ C r0 now _ result
  have hl := line hmid hf.of_append.tail hafter hr1 (hg.trans hgeneration.symm)
  have hsome := (hl.same (hattempt.trans hsame.symm)).2.2 (by rw [hdone]; rfl)
  rw [(completes_eq_true hc).2.1] at hsome
  cases hsome

theorem tracked_newest (hr : (C.machine scopes own).Run (newer ++ t :: older) s) {ticket : τ}
    {result : Except String α} (he : t.event = .finish ticket now result)
    (ho : t.output = .ok (.done true)) :
    ∃ r, t.before.rows.get (C.ticketKey ticket) = some r ∧ C.answers ticket r = true ∧
      t.before.scope (C.ticketKey ticket) = some r.scope ∧ r.startedMs ≤ now ∧
      Newest (C.ticketKey ticket) r older := by
  obtain ⟨hbefore, hstep⟩ := hr.split
  obtain ⟨r, hget, hkey, hc, -⟩ := finish_eq hstep he ho
  obtain ⟨hanswers, -, hstart, hscope⟩ := completes_eq_true hc
  exact ⟨r, hget, hanswers, hkey ▸ hscope, hstart, newest_row hbefore hget⟩

theorem tracked_spaced (hr : (C.machine scopes own).Run h s) (hf : Fresh h) :
    h.Pairwise fun u t => ∀ k now now' r r', Begins k now r t → Begins k now' r' u →
      r'.generation = r.generation → r.attempt < r'.attempt ∧ now + C.intervalMs ≤ now' := by
  refine Machine.pairwise_of_split ?_
  rintro newer mid older u t rfl k now now' r r' ht hu hg
  obtain ⟨hmid, hstep'⟩ := hr.split
  obtain ⟨-, hstep⟩ := hmid.split
  obtain ⟨hafter, hstart, -⟩ := begins_eq hstep ht
  obtain ⟨-, hstart', hnew | ⟨r0, hr0, hr', hl'⟩⟩ := begins_eq hstep' hu
  · obtain ⟨g, he, rfl, hfirst⟩ := hnew
    have hfresh := (List.pairwise_cons.mp hf.of_append).1 t
      (List.mem_append_right _ List.mem_cons_self)
    exact absurd hg.symm (hfresh k now' _ r' he hu.2 hfirst r hafter)
  · have hl := line hmid hf.of_append.tail hafter hr0 (hl'.generation.symm.trans hg)
    have hlt : r.attempt < r'.attempt := by
      have := hl.attempt
      simp only [hr', Observation.started]
      omega
    exact ⟨hlt, hstart ▸ hstart' ▸ (hl.trans hl').due hlt⟩

omit [DecidableEq ω] [DecidableEq α] in
theorem success_other (hne : ¬ Accepted C k c o) : C.success k g ⟨s, c, s', o⟩ = none := by
  unfold success
  split
  · rename_i ticket now v he ho
    rw [if_neg]
    rintro ⟨hk, -⟩
    obtain rfl : c = _ := he
    obtain rfl : o = _ := ho
    exact hne (.finished now (.ok v) hk)
  · rfl

omit [DecidableEq ω] [DecidableEq α] in
theorem success_generation (hne : ∀ x, t.after.rows.get k = some x → x.generation ≠ g) :
    C.success k g t = none := by
  unfold success
  split
  · rw [if_neg]
    rintro ⟨-, hg⟩
    obtain ⟨x, hx, hxg⟩ := Option.map_eq_some_iff.mp hg
    exact hne x hx hxg
  · rfl

theorem tracked_latest (hr : (C.machine scopes own).Run h s) (hf : Fresh h)
    (hget : s.rows.get k = some r) : r.latest = h.findSome? (C.success k r.generation) := by
  induction hr generalizing r with
  | start hs =>
    have hmem := (Table.get_eq_some.mp hget).1
    rw [hs.1] at hmem
    cases hmem
  | @snoc h s s' c o hr hs ih =>
    obtain ⟨hfresh, hf'⟩ := List.pairwise_cons.mp hf
    have hm := step_move hs k
    rw [hget] at hm
    generalize hx : s.rows.get k = x at hm
    generalize hy : some r = y at hm
    rw [List.findSome?_cons]
    cases hm with
    | other hne =>
      rw [success_other hne]
      exact ih hf' (hx.trans hy.symm)
    | dropped => cases hy
    | created hscope hold =>
      obtain rfl := Option.some.inj hy
      refine (List.findSome?_eq_none_iff.mpr fun v hv => ?_).symm
      exact success_generation fun x hx => hfresh v hv k _ _ _ rfl rfl rfl x hx
    | begun hkey hscope hdue =>
      obtain rfl := Option.some.inj hy
      have hlatest := ih hf' hx
      exact hlatest
    | @finished r0 ticket now result hkey hk hc =>
      obtain rfl := Option.some.inj hy
      cases result with
      | error e =>
        have hlatest := ih hf' hx
        exact hlatest
      | ok v =>
        have hgeneration : (s'.rows.get k).map (·.generation) =
            some (C.completed now (.ok v) r0).generation := by
          rw [hget]
          rfl
        simp only [success, if_pos (And.intro hk hgeneration)]
        rfl
    | acknowledged hkey hne hnew hscope =>
      obtain rfl := Option.some.inj hy
      have hlatest := ih hf' hx
      exact hlatest

theorem tracked_raised (hs : (C.machine scopes own).step t.before t.event t.after t.output)
    (hbefore : t.before.rows.get k = some r) (hafter : t.after.rows.get k = some r')
    (hg : r'.generation = r.generation) (hf : ∀ now g r, t.event = .begin_ k now (.ok g) →
      t.output = .ok (.begun (some r)) → r.attempt = 1 → ∀ x, t.before.rows.get k = some x →
      x.generation ≠ g) :
    (C.Completes k r t ∧ C.isNews r r' = true ∧ r'.revision = r.revision + 1) ∨
      ¬ (C.Completes k r t ∧ C.isNews r r' = true) ∧ r'.revision = r.revision := by
  obtain ⟨s, c, s', o⟩ := t
  have hm := step_move hs k
  dsimp only at hbefore hafter hm hf
  rw [hbefore, hafter] at hm
  generalize hx : some r = x at hm
  generalize hy : some r' = y at hm
  cases hm with
  | other hne =>
    obtain rfl := Option.some.inj (hx.trans hy.symm)
    refine Or.inr ⟨?_, rfl⟩
    rintro ⟨⟨⟨ticket, now, result, he, hk⟩, ho, -⟩, -⟩
    obtain rfl : c = _ := he
    obtain rfl : o = _ := ho
    exact hne (.finished now result hk)
  | dropped => cases hy
  | created hscope hold =>
    obtain rfl := Option.some.inj hy
    exact absurd hg.symm (hf _ _ _ rfl rfl rfl r hbefore)
  | begun hkey hscope hdue =>
    obtain rfl := Option.some.inj hy
    obtain rfl := Option.some.inj hx
    exact Or.inr ⟨fun ⟨⟨⟨_, _, _, he, _⟩, _⟩, _⟩ => (by cases he), rfl⟩
  | @finished r0 ticket now result hkey hk hc =>
    obtain rfl := Option.some.inj hy
    obtain rfl := Option.some.inj hx
    have hcompletes : C.Completes k r ⟨s, .finish ticket now result, s', .ok (.done true)⟩ :=
      ⟨⟨ticket, now, result, rfl, hk⟩, rfl, hbefore⟩
    obtain ⟨-, -, -, -, -, hlatest, herror, hrevision⟩ := @completed_eq κ γ ω α τ C r now _ result
    have hnews : C.isNews r (C.completed now result r) = C.isNews r (r.sampled result) := by
      unfold isNews
      rw [hlatest, herror]
    rw [hrevision, hnews]
    by_cases hn : C.isNews r (r.sampled result) = true
    · exact Or.inl ⟨hcompletes, hn, if_pos hn⟩
    · exact Or.inr ⟨fun hboth => hn hboth.2, if_neg hn⟩
  | acknowledged hkey hne hnew hscope =>
    obtain rfl := Option.some.inj hy
    obtain rfl := Option.some.inj hx
    exact Or.inr ⟨fun ⟨⟨⟨_, _, _, he, _⟩, _⟩, _⟩ => (by cases he), rfl⟩

theorem tracked_shown (hr : (C.machine scopes own).Run h s) (hf : Fresh h) :
    h.Pairwise fun u t => ∀ k r r', t.after.rows.get k = some r → u.after.rows.get k = some r' →
      r'.generation = r.generation → r'.revision = r.revision → r.revision ≠ 0 →
      r'.latest = r.latest ∧ r'.error = r.error := by
  refine Machine.pairwise_of_split ?_
  rintro newer mid older u t rfl k r r' ht hu hg hrevision hne
  obtain ⟨hbefore, hstep⟩ := hr.split
  obtain ⟨hbefore', hstep'⟩ := hbefore.split
  have hrun : (C.machine scopes own).Run ((u :: mid) ++ t :: older) u.after := hbefore.snoc hstep
  have hl := line hrun hf.of_append ht hu hg
  exact hl.shown hrevision ((sound (hbefore'.snoc hstep').reachable ht).known hne)

theorem tracked_unknown (hs : (C.machine scopes own).step t.before t.event t.after t.output)
    (hafter : t.after.rows.get k = some r')
    (hne : ∀ r, t.before.rows.get k = some r → r.generation ≠ r'.generation) :
    r'.revision = 0 ∧ r'.acknowledgedRevision = 0 ∧ r'.latest = none ∧ r'.error = none := by
  have hm := step_move hs k
  rw [hafter] at hm
  rcases hm.later with ⟨r, hr, hl⟩ | ⟨now, g, scope, -, -, rfl⟩
  · exact absurd hl.generation.symm (hne r hr)
  · exact ⟨rfl, rfl, rfl, rfl⟩

theorem tracked_unacknowledged
    (hs : (C.machine scopes own).step t.before t.event t.after t.output)
    (hbefore : t.before.rows.get k = some r) (hafter : t.after.rows.get k = some r')
    (hf : ∀ now g r, t.event = .begin_ k now (.ok g) →
      t.output = .ok (.begun (some r)) → r.attempt = 1 → ∀ x, t.before.rows.get k = some x →
      x.generation ≠ g) (hg : r'.generation = r.generation)
    (hne : r'.acknowledgedRevision ≠ r.acknowledgedRevision) :
    t.event = .acknowledge k r.generation r.revision ∧ t.output = .ok (.done true) := by
  obtain ⟨s, c, s', o⟩ := t
  have hm := step_move hs k
  dsimp only at hbefore hafter hm hf ⊢
  rw [hbefore, hafter] at hm
  generalize hx : some r = x at hm
  generalize hy : some r' = y at hm
  cases hm with
  | other => exact absurd (congrArg _ (Option.some.inj (hy.trans hx.symm))) hne
  | dropped => cases hy
  | created hscope hold =>
    obtain rfl := Option.some.inj hy
    exact absurd hg.symm (hf _ _ _ rfl rfl rfl r hbefore)
  | begun hkey hscope hdue =>
    obtain rfl := Option.some.inj hy
    obtain rfl := Option.some.inj hx
    exact absurd rfl hne
  | finished hkey hk hc =>
    obtain rfl := Option.some.inj hy
    obtain rfl := Option.some.inj hx
    exact absurd completed_acknowledged hne
  | acknowledged hkey hne hnew hscope =>
    obtain rfl := Option.some.inj hx
    exact ⟨rfl, rfl⟩

theorem tracked_acknowledged (hr : (C.machine scopes own).Run h s) (ht : t ∈ h) {revision : Nat}
    (he : t.event = .acknowledge k g revision) (ho : t.output = .ok (.done true)) :
    ∃ r, t.before.rows.get k = some r ∧ r.generation = g ∧ r.revision = revision ∧
      revision ≠ 0 ∧ r.acknowledgedRevision < revision ∧ t.before.scope k = some r.scope ∧
      t.after.rows.get k = some { r with acknowledgedRevision := revision } := by
  obtain ⟨hreach, hstep⟩ := hr.of_mem t ht
  obtain ⟨r, hget, hg, hrevision, hne, hnew, hscope, hafter⟩ := acknowledge_eq hstep he ho
  have hle : r.acknowledgedRevision ≤ revision := hrevision ▸ (sound hreach hget).acknowledged
  exact ⟨r, hget, hg, hrevision, hne, lt_of_le_of_ne hle hnew, hscope, hafter⟩

/-- The row that a first attempt finds under its key is of another generation. -/
theorem fresh_before (hr : (C.machine scopes own).Run (newer ++ t :: older) s)
    (hf : Fresh (newer ++ t :: older)) (he : t.event = .begin_ k now (.ok g))
    (ho : t.output = .ok (.begun (some r))) (hfirst : r.attempt = 1) :
    ∀ x, t.before.rows.get k = some x → x.generation ≠ g := by
  intro x hx
  obtain ⟨hbefore, -⟩ := hr.split
  have hfresh := (List.pairwise_cons.mp hf.of_append).1
  cases hbefore with
  | start hs =>
    have hmem := (Table.get_eq_some.mp hx).1
    rw [hs.1] at hmem
    cases hmem
  | snoc hr' hs' =>
    exact hfresh _ List.mem_cons_self k now g r he ho hfirst x hx

/-- Every run in which no generation comes twice. -/
theorem tracked (hr : (C.machine scopes own).Run h s) (hf : Fresh h) : Tracked C h s where
  once := tracked_once hr hf
  newest := by
    rintro newer older t rfl ticket now result he ho
    exact tracked_newest hr he ho
  spaced := tracked_spaced hr hf
  latest k r hget := tracked_latest hr hf hget
  raised := by
    intro t ht k r r' hbefore hafter hg
    obtain ⟨newer, older, rfl⟩ := List.append_of_mem ht
    exact tracked_raised (hr.of_mem t ht).2 hbefore hafter hg fun now g r he ho hfirst =>
      fresh_before hr hf he ho hfirst
  unknown t ht k r' hafter hne := tracked_unknown (hr.of_mem t ht).2 hafter hne
  acknowledged t ht k g revision he ho := tracked_acknowledged hr ht he ho
  unacknowledged := by
    intro t ht k r r' hbefore hafter hg hne
    obtain ⟨newer, older, rfl⟩ := List.append_of_mem ht
    exact tracked_unacknowledged (hr.of_mem t ht).2 hbefore hafter
      (fun now g r he ho hfirst => fresh_before hr hf he ho hfirst) hg hne
  shown := tracked_shown hr hf

/-- The generation that a call brings along for a new row. -/
def drawn (t : Transition (Observations κ γ ω α) (Check κ γ ω α τ)
    (Except String (Checked κ γ ω α))) : Option γ :=
  match t.event with
  | .begin_ _ _ (.ok g) => some g
  | _ => none

theorem drawn_row (hr : (C.machine scopes own).Run h s) (hget : s.rows.get k = some r) :
    r.generation ∈ h.filterMap drawn := by
  refine hr.invariant (P := fun h s => ∀ r, s.rows.get k = some r →
    r.generation ∈ h.filterMap drawn) ?_ ?_ r hget
  · rintro s ⟨hs, -⟩ r hget
    have hmem := (Table.get_eq_some.mp hget).1
    rw [hs] at hmem
    cases hmem
  · intro h s c s' o _ ih hs r' hget
    have hm := step_move hs k
    rw [hget] at hm
    rcases hm.later with ⟨r, hr, hl⟩ | ⟨now, g, scope, rfl, -, rfl⟩
    · rw [hl.generation]
      obtain ⟨t, ht, hd⟩ := List.mem_filterMap.mp (ih r hr)
      exact List.mem_filterMap.mpr ⟨t, List.mem_cons_of_mem _ ht, hd⟩
    · exact List.mem_filterMap.mpr ⟨_, List.mem_cons_self, rfl⟩

/-- It is enough that no two calls bring the same generation. -/
theorem fresh_of_nodup (hr : (C.machine scopes own).Run h s) (hn : (h.filterMap drawn).Nodup) :
    Fresh h := by
  refine Machine.pairwise_of_split ?_
  rintro newer mid older u t rfl k now g r he - - x hx rfl
  obtain ⟨hmid, -⟩ := hr.split
  obtain ⟨hbefore, hstep⟩ := hmid.split
  have hmem := List.mem_filterMap.mp (drawn_row (hbefore.snoc hstep) hx)
  obtain ⟨w, hw, hd⟩ := hmem
  rw [List.filterMap_append, List.filterMap_cons_some (show drawn u = some x.generation by
    simp only [drawn, he])] at hn
  have hnot := (List.nodup_cons.mp (List.nodup_append.mp hn).2.1).1
  exact hnot (List.mem_filterMap.mpr ⟨w, List.mem_append_right _ hw, hd⟩)

end

end Agend.Library.Checking
