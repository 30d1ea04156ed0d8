import Mathlib.Tactic.SplitIfs
import Mathlib.Tactic.TypeStar

/-! Fallible computations: what a result says about the steps, and the rule for a loop. -/
namespace Agend.Library

universe u v

variable {ε : Type v} {α β : Type u} {x : Except ε α} {a : α} {b : β} {e : ε}

theorem bind_eq_ok {f : α → Except ε β} :
    (x >>= f) = .ok b ↔ ∃ a, x = .ok a ∧ f a = .ok b := by
  cases x with
  | error e =>
    constructor
    · intro h
      cases h
    · rintro ⟨a, h, -⟩
      cases h
  | ok a =>
    constructor
    · exact fun h => ⟨a, rfl, h⟩
    · rintro ⟨a', h, hf⟩
      cases h
      exact hf

theorem map_eq_ok {f : α → β} : x.map f = .ok b ↔ ∃ a, x = .ok a ∧ f a = b := by
  cases x with
  | error e =>
    constructor
    · intro h
      cases h
    · rintro ⟨a, h, -⟩
      cases h
  | ok a =>
    constructor
    · exact fun h => ⟨a, rfl, Except.ok.inj h⟩
    · rintro ⟨a', h, hf⟩
      cases h
      exact congrArg Except.ok hf

theorem mapError_eq_ok {ε' : Type v} {f : ε → ε'} : x.mapError f = .ok a ↔ x = .ok a := by
  cases x with
  | error e => exact ⟨nofun, nofun⟩
  | ok b => exact ⟨fun h => congrArg Except.ok (Except.ok.inj h), fun h => h ▸ rfl⟩

theorem pure_eq_ok {a' : α} : (pure a : Except ε α) = .ok a' ↔ a = a' :=
  ⟨Except.ok.inj, congrArg Except.ok⟩

theorem ite_error_eq_ok {p : Prop} [Decidable p] :
    (if p then .error e else x) = .ok a ↔ ¬ p ∧ x = .ok a := by
  split_ifs with h
  · exact ⟨nofun, fun hx => absurd h hx.1⟩
  · exact ⟨fun hx => ⟨h, hx⟩, fun hx => hx.2⟩

/-- An option, or an error. -/
def okOr (o : Option α) (e : ε) : Except ε α :=
  match o with
  | some a => .ok a
  | none => .error e

/-- Goes on only when `p` holds. -/
def require (p : Prop) [Decidable p] (e : ε) : Except ε Unit :=
  if p then .ok () else .error e

theorem okOr_eq_ok {o : Option α} : okOr o e = .ok a ↔ o = some a := by
  cases o with
  | none => simp [okOr]
  | some b => simp [okOr]

theorem require_eq_ok {p : Prop} [Decidable p] {u : Unit} : require p e = .ok u ↔ p := by
  unfold require
  split_ifs with h
  · exact ⟨fun _ => h, fun _ => rfl⟩
  · exact ⟨fun h => (nomatch h), fun hp => absurd hp h⟩

/-- A computation behind a guard. -/
theorem require_bind_eq_ok {β : Type} {b : β} {p : Prop} [Decidable p] {y : Except ε β} :
    (require p e >>= fun _ => y) = .ok b ↔ p ∧ y = .ok b := by
  rw [bind_eq_ok]
  constructor
  · rintro ⟨_, hp, hy⟩
    exact ⟨require_eq_ok.mp hp, hy⟩
  · rintro ⟨hp, hy⟩
    exact ⟨(), require_eq_ok.mpr hp, hy⟩

/-- Each result is of an element. -/
theorem exists_of_mem_mapM {α : Type*} {f : α → Except ε β} {l : List α} {bs : List β}
    (h : l.mapM f = .ok bs) : ∀ b ∈ bs, ∃ a ∈ l, f a = .ok b := by
  induction l generalizing bs with
  | nil =>
    rw [List.mapM_nil] at h
    obtain rfl := Except.ok.inj h
    exact List.forall_mem_nil _
  | cons a l ih =>
    rw [List.mapM_cons] at h
    obtain ⟨b, hb, h⟩ := bind_eq_ok.mp h
    obtain ⟨bs', hbs', h⟩ := bind_eq_ok.mp h
    obtain rfl := Except.ok.inj h
    intro x hx
    rcases List.mem_cons.mp hx with rfl | hx
    · exact ⟨a, List.mem_cons_self, hb⟩
    · obtain ⟨y, hy, hfy⟩ := ih hbs' x hx
      exact ⟨y, List.mem_cons_of_mem _ hy, hfy⟩

/-- The loop rule: what one round extends holds after the last one. -/
theorem foldlM_rule {α : Type*} {f : β → α → Except ε β} {l : List α} {P : List α → β → Prop}
    (step : ∀ done a rest b b', l = done ++ a :: rest → P done b → f b a = .ok b' →
      P (done ++ [a]) b')
    {b b' : β} (h : P [] b) (hf : l.foldlM f b = .ok b') : P l b' := by
  suffices hsuff : ∀ rest done b, l = done ++ rest → P done b → rest.foldlM f b = .ok b' → P l b' by
    exact hsuff l [] b rfl h hf
  intro rest
  induction rest with
  | nil =>
    intro done b hl hP hrest
    rw [List.append_nil] at hl
    rw [List.foldlM_nil, pure_eq_ok] at hrest
    rw [hl, ← hrest]
    exact hP
  | cons a rest ih =>
    intro done b hl hP hrest
    rw [List.foldlM_cons, bind_eq_ok] at hrest
    obtain ⟨b1, hb1, hrest⟩ := hrest
    exact ih (done ++ [a]) b1 (by rw [hl, List.append_assoc]; rfl) (step done a rest b b1 hl hP hb1)
      hrest

end Agend.Library
