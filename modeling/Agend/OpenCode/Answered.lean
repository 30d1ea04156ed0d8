import Agend.OpenCode.Claim
import Agend.Runtime.Attempts

/-! A permission request is answered once, as it was observed, and without the operator only for
the worktree of its agent. -/
namespace Agend.OpenCode

open Library
open Agend.Engine (TaskRow BindingRow)

section

variable {κ : Type} [DecidableEq κ] {digest : String × String × String × Json → κ}
  {reread : Json → Except String Json} {s s' : Permissions κ} {c : Request κ} {o : Answer}
  {id : κ} {r r' : Row κ} {p : Permission} {instanceId session missing : String} {now : Nat}
  {allow : Bool} {files : Files} {grant : Grant} {a : Option (String × Permission)}

theorem request_session {id owner : String} {row : Json} (h : request id owner row = .ok p) :
    p.session = owner := by
  unfold request at h
  obtain ⟨kind, -, h⟩ := bind_eq_ok.mp h
  obtain ⟨patterns, -, h⟩ := bind_eq_ok.mp h
  obtain ⟨_, -, h⟩ := bind_eq_ok.mp h
  obtain ⟨-, h⟩ := require_bind_eq_ok.mp h
  obtain ⟨-, h⟩ := require_bind_eq_ok.mp h
  obtain rfl := Except.ok.inj h
  rfl

/-- Only requests of the session are returned. -/
theorem parseRows_session {ids : List String} {rows : List Json} {ps : List Permission}
    (h : parseRows session ids rows = .ok ps) : ∀ p ∈ ps, p.session = session := by
  induction rows generalizing ids ps with
  | nil =>
    obtain rfl := Except.ok.inj h
    exact List.forall_mem_nil _
  | cons row rest ih =>
    unfold parseRows at h
    obtain ⟨id, -, h⟩ := bind_eq_ok.mp h
    obtain ⟨owner, -, h⟩ := bind_eq_ok.mp h
    obtain ⟨-, h⟩ := require_bind_eq_ok.mp h
    obtain ⟨found, hfound, h⟩ := bind_eq_ok.mp h
    obtain ⟨later, hlater, h⟩ := bind_eq_ok.mp h
    obtain rfl := Except.ok.inj h
    intro p hp
    rcases List.mem_append.mp hp with hp | hp
    · obtain rfl := Option.mem_toList.mp hp
      unfold ownRequest at hfound
      split_ifs at hfound with howner
      · obtain ⟨q, hq, he⟩ := map_eq_ok.mp hfound
        obtain rfl := Option.some.inj he
        rw [request_session hq, howner]
      · cases Except.ok.inj hfound
    · exact ih hlater p hp

/-- A stored request that can be read is of the session and identifies its row. -/
theorem stored_eq_ok (h : Permissions.stored digest reread r missing = .ok p) :
    p.session = r.sessionId ∧ identity digest r.instanceId p = r.id ∧
      ∀ missing', Permissions.stored digest reread r missing' = .ok p := by
  obtain ⟨native, hnative, h⟩ := bind_eq_ok.mp h
  obtain ⟨found, hfound, h⟩ := bind_eq_ok.mp h
  obtain ⟨q, hq, h⟩ := bind_eq_ok.mp h
  obtain ⟨hid, h⟩ := require_bind_eq_ok.mp h
  obtain rfl := Except.ok.inj h
  rw [okOr_eq_ok] at hq
  obtain ⟨rows, -, hrows⟩ := bind_eq_ok.mp hfound
  refine ⟨parseRows_session hrows q (List.mem_of_getLast? hq), hid, fun missing' => ?_⟩
  refine bind_eq_ok.mpr ⟨native, hnative, bind_eq_ok.mpr ⟨found, hfound, ?_⟩⟩
  exact bind_eq_ok.mpr ⟨q, okOr_eq_ok.mpr hq, require_bind_eq_ok.mpr ⟨hid, rfl⟩⟩

/-- What a successful claim found, and what it left. -/
theorem claim_eq_some {i : String}
    (h : s.claim digest reread id allow now = .ok (s', some (i, p))) :
    ∃ r, s.rows.get id = some r ∧ s.claimable r = true ∧ i = r.instanceId ∧
      Permissions.stored digest reread r "missing stored permission" = .ok p ∧
      s' = { s with rows := s.rows.put { r with
        decision := some allow
        attemptedAtUnixMs := some now
        status := .unknown } } := by
  unfold Permissions.claim at h
  split at h
  · cases (Prod.mk.inj (Except.ok.inj h)).2
  · rename_i r hr
    obtain ⟨hr, hclaimable⟩ := Option.filter_eq_some_iff.mp hr
    obtain ⟨q, hq, h⟩ := bind_eq_ok.mp h
    obtain ⟨-, h⟩ := require_bind_eq_ok.mp h
    obtain ⟨rfl, he⟩ := Prod.mk.inj (Except.ok.inj h)
    obtain ⟨rfl, rfl⟩ := Prod.mk.inj (Option.some.inj he)
    exact ⟨r, hr, hclaimable, rfl, hq, rfl⟩

theorem claim_eq_none (h : s.claim digest reread id allow now = .ok (s', none)) : s' = s := by
  unfold Permissions.claim at h
  split at h
  · exact (Prod.mk.inj (Except.ok.inj h)).1.symm
  · obtain ⟨q, -, h⟩ := bind_eq_ok.mp h
    obtain ⟨-, h⟩ := require_bind_eq_ok.mp h
    cases (Prod.mk.inj (Except.ok.inj h)).2

/-- A claim of a worktree is a claim, with its grant as it is now. -/
theorem claimWorktree_eq_ok (h : s.claimWorktree digest reread files id grant now = .ok (s', a)) :
    s' = s ∧ a = none ∨ s.eligible digest reread files id = .ok (some grant) ∧
      s.claim digest reread id true now = .ok (s', a) := by
  obtain ⟨current, hcurrent, h⟩ := bind_eq_ok.mp h
  split_ifs at h with he
  · exact Or.inr ⟨he ▸ hcurrent, h⟩
  · obtain ⟨rfl, rfl⟩ := Prod.mk.inj (Except.ok.inj h)
    exact Or.inl ⟨rfl, rfl⟩

/-- What a call may do to a row. -/
structure Kept (r r' : Row κ) : Prop where
  instanceId : r'.instanceId = r.instanceId
  sessionId : r'.sessionId = r.sessionId
  attempted : r.attemptedAtUnixMs.isSome = true → r'.attemptedAtUnixMs.isSome = true

omit [DecidableEq κ] in
theorem Kept.refl : Kept r r := ⟨rfl, rfl, fun h => h⟩

/-- The row is of a request that is observed. -/
def Seen (digest : String × String × String × Json → κ) (instanceId session : String)
    (ps : List Permission) (id : κ) (r : Row κ) : Prop :=
  r.instanceId = instanceId ∧ r.sessionId = session ∧
    ∃ q ∈ ps, q.session = session ∧ identity digest instanceId q = id

/-- Every row after a call was there before, or is new and of a request that the call observed. -/
def RowsKept (digest : String × String × String × Json → κ) (s : Permissions κ) (c : Request κ)
    (s' : Permissions κ) : Prop :=
  ∀ id r', s'.rows.get id = some r' → (∃ r, s.rows.get id = some r ∧ Kept r r') ∨
    s.rows.get id = none ∧ ∃ instanceId session ps now, c = .observe instanceId session ps now ∧
      Seen digest instanceId session ps id r'

theorem rowsKept_same (h : s'.rows = s.rows) : RowsKept digest s c s' :=
  fun _ r' hr' => Or.inl ⟨r', h ▸ hr', .refl⟩

theorem rowsKept_put (hr : s.rows.get id = some r) (hid : r'.id = r.id) (hk : Kept r r') :
    RowsKept digest s c { s with rows := s.rows.put r' } := by
  obtain rfl : r'.id = id := hid.trans (Table.get_eq_some.mp hr).2
  intro k x hx
  rw [Table.get_put] at hx
  split_ifs at hx with he
  · obtain rfl := Option.some.inj hx
    exact Or.inl ⟨r, he ▸ hr, hk⟩
  · exact Or.inl ⟨x, hx, .refl⟩

theorem insert_eq_ok (h : Permissions.insert digest instanceId session now s p = .ok s') :
    s' = s ∨ ∃ r, s.rows.get r.id = none ∧ Seen digest instanceId session [p] r.id r ∧
      s' = { s with rows := s.rows.put r } := by
  obtain ⟨hsession, h⟩ := require_bind_eq_ok.mp h
  obtain ⟨-, h⟩ := require_bind_eq_ok.mp h
  split at h
  · exact Or.inl (Except.ok.inj h).symm
  · rename_i hnone
    exact Or.inr ⟨_, hnone, ⟨rfl, rfl, p, List.mem_singleton_self p, hsession, rfl⟩,
      (Except.ok.inj h).symm⟩

omit [DecidableEq κ] in
theorem Seen.mono {ps qs : List Permission} (hs : Seen digest instanceId session ps id r)
    (hsub : ∀ p ∈ ps, p ∈ qs) : Seen digest instanceId session qs id r := by
  obtain ⟨hi, hse, q, hq, hrest⟩ := hs
  exact ⟨hi, hse, q, hsub q hq, hrest⟩

theorem observe_rows {ps : List Permission}
    (h : s.observe digest instanceId session ps now = .ok s') :
    RowsKept digest s (.observe instanceId session ps now) s' := by
  obtain ⟨-, h⟩ := require_bind_eq_ok.mp h
  obtain ⟨s1, hs1, h⟩ := bind_eq_ok.mp h
  obtain rfl := Except.ok.inj h
  have hinserted : (∀ id, s1.rows.get id = none → s.rows.get id = none) ∧
      ∀ id r', s1.rows.get id = some r' → s.rows.get id = some r' ∨
        s.rows.get id = none ∧ Seen digest instanceId session ps id r' := by
    refine foldlM_rule (P := fun done (b : Permissions κ) =>
      (∀ id, b.rows.get id = none → s.rows.get id = none) ∧
      ∀ id r', b.rows.get id = some r' → s.rows.get id = some r' ∨
        s.rows.get id = none ∧ Seen digest instanceId session done id r') ?_
      ⟨fun _ hnone => hnone, fun _ _ hr' => Or.inl hr'⟩ hs1
    rintro done q rest b b' - ⟨hnone, hrows⟩ hq
    have hsub : ∀ p ∈ done, p ∈ done ++ [q] := fun p hp => List.mem_append_left _ hp
    have hrows' : ∀ id r', b.rows.get id = some r' → s.rows.get id = some r' ∨
        s.rows.get id = none ∧ Seen digest instanceId session (done ++ [q]) id r' :=
      fun id r' hr' => (hrows id r' hr').imp_right fun ⟨hfree, hseen⟩ => ⟨hfree, hseen.mono hsub⟩
    rcases insert_eq_ok hq with rfl | ⟨x, hfree, hx, rfl⟩
    · exact ⟨hnone, hrows'⟩
    · refine ⟨fun id hid => ?_, fun id r' hr' => ?_⟩
      · simp only [Table.get_put] at hid
        split_ifs at hid
        exact hnone id hid
      · simp only [Table.get_put] at hr'
        split_ifs at hr' with he
        · obtain rfl := Option.some.inj hr'
          subst he
          exact Or.inr ⟨hnone _ hfree, hx.mono fun p hp => List.mem_append_right _ hp⟩
        · exact hrows' id r' hr'
  intro id r' hr'
  simp only [Table.get_update, Option.map_eq_some_iff] at hr'
  obtain ⟨x, hx, rfl⟩ := hr'
  have hkept : ∀ present, Kept x (Permissions.expire instanceId present x) := by
    intro present
    unfold Permissions.expire
    split_ifs
    · exact ⟨rfl, rfl, fun h => h⟩
    · exact .refl
  rcases hinserted.2 id x hx with hold | ⟨hfree, hi, hse, hseen⟩
  · exact Or.inl ⟨x, hold, hkept _⟩
  · exact Or.inr ⟨hfree, instanceId, session, ps, now, rfl, (hkept _).instanceId.trans hi,
      (hkept _).sessionId.trans hse, hseen⟩

theorem claim_rows (h : s.claim digest reread id allow now = .ok (s', a)) :
    RowsKept digest s c s' := by
  cases a with
  | none => exact rowsKept_same (by rw [claim_eq_none h])
  | some x =>
    obtain ⟨r, hr, -, -, -, rfl⟩ := claim_eq_some h
    exact rowsKept_put hr rfl ⟨rfl, rfl, fun _ => rfl⟩

theorem resolved_rows : RowsKept digest s c (s.resolved id) := by
  unfold Permissions.resolved
  split
  · rename_i r hr
    split_ifs
    · exact rowsKept_put hr rfl ⟨rfl, rfl, fun h => h⟩
    · exact rowsKept_same rfl
  · exact rowsKept_same rfl

theorem cascade_rows {op : Runtime.Operation} {base : Runtime.Store} :
    RowsKept digest s c (s.cascade op base) := by
  unfold Permissions.cascade
  split
  · intro id r' hr'
    obtain ⟨hr', -⟩ := Option.filter_eq_some_iff.mp (Table.get_filter.symm.trans hr')
    exact Or.inl ⟨r', hr', .refl⟩
  · exact rowsKept_same rfl

/-- Every call. -/
theorem rowsKept_step (hs : (permissions digest reread).step s c s' o) : RowsKept digest s c s' := by
  have hcall : s.call digest reread c = (s', o) := hs
  unfold Permissions.call at hcall
  cases hexec : s.exec digest reread c with
  | error text =>
    rw [hexec] at hcall
    exact rowsKept_same (by rw [← (Prod.mk.inj hcall).1])
  | ok x =>
    obtain ⟨s1, answer⟩ := x
    rw [hexec] at hcall
    obtain ⟨rfl, -⟩ := Prod.mk.inj hcall
    cases c with
    | runtime op =>
      obtain ⟨⟨t, reply⟩, -, he⟩ := map_eq_ok.mp hexec
      obtain ⟨rfl, -⟩ := Prod.mk.inj he
      exact cascade_rows
    | owned owned =>
      obtain ⟨rfl, -⟩ := Prod.mk.inj (Except.ok.inj hexec)
      exact rowsKept_same rfl
    | observe instanceId session ps now =>
      obtain ⟨t, h, he⟩ := map_eq_ok.mp hexec
      obtain ⟨rfl, -⟩ := Prod.mk.inj he
      exact observe_rows h
    | claim id allow now => exact claim_rows hexec
    | claimWorktree files id grant now =>
      rcases claimWorktree_eq_ok hexec with ⟨rfl, -⟩ | ⟨-, h⟩
      · exact rowsKept_same rfl
      · exact claim_rows h
    | resolved id =>
      obtain ⟨rfl, -⟩ := Prod.mk.inj (Except.ok.inj hexec)
      exact resolved_rows

end

end Agend.OpenCode
