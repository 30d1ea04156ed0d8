import Mathlib.Data.List.Perm.Subperm
import Agend.Github.Workers

/-! What holds of the ledger and of the requests, whoever works. -/
namespace Agend.Github

open Library

variable {w w' w'' : World} {a : Answer} {i j k m n : Nat} {x : Request}
  {old new c : GithubChange} {head : String} {lease : Option String} {kind : Kind}
  {expected : Option Nat} {record : VersionedGithubChange} {moves : List Move}

/-- The version that a mutation is claimed by: it is the first that says so. -/
def Claimed (previous : Option GithubChange) (new : GithubChange) : Mutation → Prop
  | .push lease head => new.pushIntent = some head ∧ new.pushedHead = lease ∧ new.cleanup = {} ∧
      new.mergeHead = none ∧ ∀ old, previous = some old → old.pushIntent = none
  | .create _ _ _ _ => new.createAttempted = true ∧
      ∀ old, previous = some old → old.createAttempted = false
  | .merge number sha => new.mergeHead = some sha ∧ new.pullNumber = some number ∧
      ∀ old, previous = some old → old.mergeHead = none
  | .close _ => new.cleanup.closeAttempted = true ∧ new.mergeHead = none ∧
      ∀ old, previous = some old → old.cleanup.closeAttempted = false
  | .delete lease => new.cleanup.deleteAttempted = true ∧ new.pushedHead = some lease ∧
      new.pushIntent = none ∧ ∀ old, previous = some old → old.cleanup.deleteAttempted = false

/-- The worker of the request saved the version that claims it. -/
structure World.Claims (w : World) (x : Request) (n : Nat) (new : GithubChange) : Prop where
  revision : x.revision = n + 1
  saved : w.saves[n]? = some (x.process, new)
  claimed : Claimed (before w.versions n) new x.mutation

/-- The push that a version claims did not take effect. -/
structure World.Unwritten (w : World) (n : Nat) (head : String) : Prop where
  claimed : ∃ new, w.versions[n]? = some new ∧ new.pushIntent = some head ∧
    ∀ old, before w.versions n = some old → old.pushIntent = none
  unwritten : ∀ x ∈ w.written, x.request.revision ≠ n + 1

/-- What holds while nobody else changes the branch. -/
structure Alone (w : World) : Prop where
  unclaimed : w.versions.getLast? = none → w.remote = none
  /-- The branch has a head that the ledger names. -/
  named : ∀ c, w.versions.getLast? = some c → w.remote = c.pushedHead ∨
    c.pushIntent ≠ none ∧ w.remote = c.pushIntent ∨
    c.cleanup.deleteAttempted = true ∧ w.remote = none
  /-- A push that did not take effect stays pending. -/
  pending : ∀ n head, w.Unwritten n head → w.remote ≠ some head ∧
    ∀ k c, n ≤ k → w.versions[k]? = some c → c.pushIntent = some head
  complete : ∀ c, w.versions.getLast? = some c → c.cleanup.complete = true →
    c.pushIntent = none → w.remote = none
  deleting : ∀ c, w.versions.getLast? = some c → c.cleanup.deleteAttempted = true →
    c.pushIntent = none

structure Sound (w : World) : Prop where
  succession : Succession GithubChange.Follows w.versions
  claims : ∀ x ∈ w.issued, ∃ n new, w.Claims x n new
  distinct : w.issued.Pairwise fun x y => x.revision ≠ y.revision
  landed : (w.flight ++ w.written.map (·.request)).Subperm w.issued
  leased : ∀ x ∈ w.written, ∃ head, x.request.mutation.ref = some (x.replaced, head)
  alone : w.foreign = false → Alone w

/-- A pending push that is on the branch stays there, and without one the branch stays absent. -/
structure Remains (w w' : World) : Prop where
  seen : ∀ c, w.versions.getLast? = some c → ∀ head, c.pushIntent = some head →
    w.remote = some head → w'.remote = some head
  absent : ∀ c, w.versions.getLast? = some c → c.pushIntent = none → w.remote = none →
    w'.remote = none

theorem Remains.of_eq (h : w'.remote = w.remote) : Remains w w' :=
  ⟨fun _ _ _ _ hr => h.trans hr, fun _ _ _ hr => h.trans hr⟩

theorem Remains.trans (h : Remains w w') (h' : Remains w' w'') (hs : w'.saves = w.saves) :
    Remains w w'' := by
  have hversions : w'.versions = w.versions := congrArg (List.map _) hs
  constructor
  case seen =>
    intro c hc head hintent hremote
    have hremote' := h.seen c hc head hintent hremote
    rw [← hversions] at hc
    exact h'.seen c hc head hintent hremote'
  case absent =>
    intro c hc hintent hremote
    have hremote' := h.absent c hc hintent hremote
    rw [← hversions] at hc
    exact h'.absent c hc hintent hremote'

/-- The others add versions, and make no requests in the name of this worker; what is on the branch
remains while nobody else changes it and no version is added. -/
structure Rely (i : Nat) (w w' : World) : Prop where
  saves : w.saves <+: w'.saves
  issued : ∀ x : Request, x.process = i → (x ∈ w'.issued ↔ x ∈ w.issued)
  foreign : w'.foreign = false → w.foreign = false
  remains : w'.foreign = false → w'.saves = w.saves → Remains w w'

theorem Rely.refl : Rely i w w :=
  ⟨List.prefix_refl _, fun _ _ => .rfl, fun h => h, fun _ _ => .of_eq rfl⟩

theorem Rely.trans (h : Rely i w w') (h' : Rely i w' w'') : Rely i w w'' := by
  constructor
  case saves => exact h.saves.trans h'.saves
  case issued => exact fun x hx => (h'.issued x hx).trans (h.issued x hx)
  case foreign => exact fun hf => h.foreign (h'.foreign hf)
  case remains =>
    intro hf heq
    have hle := h.saves.length_le
    have hle' := h'.saves.length_le
    rw [heq] at hle'
    have hsame : w'.saves = w.saves := (h.saves.eq_of_length (by omega)).symm
    have hfirst : Remains w w' := h.remains (h'.foreign hf) hsame
    exact hfirst.trans (h'.remains hf (heq.trans hsame.symm)) hsame

/-! Versions. -/

theorem length_versions : w.versions.length = w.saves.length := List.length_map _

theorem versions_of_saves (h : w.saves[n]? = some (i, new)) : w.versions[n]? = some new := by
  simp [World.versions, h]

theorem getElem?_mono {α : Type} {l l' : List α} {a : α} (h : l <+: l')
    (ha : l[n]? = some a) : l'[n]? = some a := by
  obtain ⟨rest, rfl⟩ := h
  have hlt : n < l.length := (List.getElem?_eq_some_iff.mp ha).1
  rw [List.getElem?_append_left hlt]
  exact ha

theorem before_mono (h : w.saves <+: w'.saves) (hn : n ≤ w.saves.length) :
    before w'.versions n = before w.versions n := by
  obtain ⟨rest, hrest⟩ := h
  have heq : w'.versions = w.versions ++ rest.map (·.2) := by
    rw [World.versions, ← hrest, List.map_append]
    rfl
  rw [heq]
  exact before_append (by rw [length_versions]; exact hn)

theorem World.Claims.mono (h : w.Claims x n new) (hs : w.saves <+: w'.saves) :
    w'.Claims x n new where
  revision := h.revision
  saved := getElem?_mono hs h.saved
  claimed := by
    have hlt : n < w.saves.length := (List.getElem?_eq_some_iff.mp h.saved).1
    rw [before_mono hs (Nat.le_of_lt hlt)]
    exact h.claimed

/-- A request was claimed by one of the versions that there are. -/
theorem Sound.revision_le (hw : Sound w) (hx : x ∈ w.issued) : x.revision ≤ w.saves.length := by
  obtain ⟨n, new, hclaims⟩ := hw.claims x hx
  have hlt : n < w.saves.length := (List.getElem?_eq_some_iff.mp hclaims.saved).1
  have hrevision := hclaims.revision
  omega

/-! What a version says of each mutation. -/

def Kind.attempted : Kind → GithubChange → Prop
  | .push, _ => False
  | .create, c => c.createAttempted = true
  | .merge, c => c.mergeHead.isSome = true
  | .close, c => c.cleanup.closeAttempted = true
  | .delete, c => c.cleanup.deleteAttempted = true

/-- An attempt is never taken back. -/
theorem lasting_attempted (kind : Kind) : Lasting GithubChange.Follows kind.attempted := by
  intro old new h hold
  have hkeeps := GithubChange.keeps_of_follows h
  cases kind with
  | push => exact hold
  | create => exact hkeeps.create hold
  | merge =>
    obtain ⟨head, hhead⟩ := Option.isSome_iff_exists.mp hold
    have hnew : new.mergeHead = some head := hkeeps.merge head hhead
    exact Option.isSome_iff_exists.mpr ⟨head, hnew⟩
  | close => exact hkeeps.close hold
  | delete => exact hkeeps.delete hold

/-! The last version. -/

theorem last_index (h : w.versions.getLast? = some c) :
    ∃ k, k + 1 = w.saves.length ∧ w.versions[k]? = some c := by
  rw [List.getLast?_eq_getElem?, length_versions] at h
  have hlt : w.saves.length - 1 < w.versions.length := (List.getElem?_eq_some_iff.mp h).1
  rw [length_versions] at hlt
  exact ⟨w.saves.length - 1, by omega, h⟩

theorem exists_last (hn : w.versions[n]? = some new) : ∃ c, w.versions.getLast? = some c := by
  cases hlast : w.versions.getLast? with
  | some c => exact ⟨c, rfl⟩
  | none =>
    rw [List.getLast?_eq_none_iff.mp hlast] at hn
    cases hn

theorem le_last (hn : w.versions[n]? = some new) (hk : k + 1 = w.saves.length) : n ≤ k := by
  have hlt : n < w.versions.length := (List.getElem?_eq_some_iff.mp hn).1
  rw [length_versions] at hlt
  omega

/-- What was claimed stays claimed. -/
theorem Sound.attempted_last (hw : Sound w) (hn : w.versions[n]? = some new)
    (hnew : kind.attempted new) (hc : w.versions.getLast? = some c) : kind.attempted c := by
  obtain ⟨k, hk, hlast⟩ := last_index hc
  exact hw.succession.lasts (lasting_attempted kind) hn hnew (le_last hn hk) hlast

theorem Alone.pending_last (ha : Alone w) (hn : w.Unwritten n head)
    (hc : w.versions.getLast? = some c) : c.pushIntent = some head := by
  obtain ⟨k, hk, hlast⟩ := last_index hc
  obtain ⟨new, hnew, -⟩ := hn.claimed
  exact (ha.pending n head hn).2 k c (le_last hnew hk) hlast

/-- A push in flight is not written. -/
theorem Sound.unwritten (hw : Sound w) (hx : x ∈ w.flight) (hm : x.mutation = .push lease head) :
    ∃ n, x.revision = n + 1 ∧ w.Unwritten n head := by
  have hissued : x ∈ w.issued := hw.landed.subset (List.mem_append_left _ hx)
  obtain ⟨n, new, hclaims⟩ := hw.claims x hissued
  have hclaimed := hclaims.claimed
  rw [hm] at hclaimed
  obtain ⟨hintent, -, -, -, hbefore⟩ := hclaimed
  have hversion : w.versions[n]? = some new := versions_of_saves hclaims.saved
  refine ⟨n, hclaims.revision, ⟨new, hversion, hintent, hbefore⟩, fun y hy hsame => ?_⟩
  obtain ⟨l, hperm, hsub⟩ := hw.landed
  have hnodup : (l.map (·.revision)).Nodup :=
    (List.pairwise_map.mpr hw.distinct : (w.issued.map (·.revision)).Nodup).sublist (hsub.map _)
  have hpairwise := List.pairwise_map.mp ((hperm.map (·.revision)).nodup_iff.mp hnodup)
  have hne := (List.pairwise_append.mp hpairwise).2.2 x hx y.request (List.mem_map_of_mem hy)
  exact hne (hclaims.revision.trans hsame.symm)

/-- Only one push is pending. -/
theorem Alone.pending_unique {head' : String} (ha : Alone w) (hm : w.Unwritten m head)
    (hn : w.Unwritten n head') : m = n := by
  have hno : ∀ {m n head head'}, w.Unwritten m head → w.Unwritten n head' → ¬ m < n := by
    intro m n head head' hm hn hlt
    obtain ⟨new, hnew, -, hbefore⟩ := hn.claimed
    obtain ⟨n, rfl⟩ : ∃ k, n = k + 1 := ⟨n - 1, by omega⟩
    have hlength : n + 1 < w.versions.length := (List.getElem?_eq_some_iff.mp hnew).1
    obtain ⟨old, hold⟩ : ∃ old, w.versions[n]? = some old := exists_version (by omega)
    have hpending := (ha.pending m head hm).2 n old (by omega) hold
    rw [hbefore old hold] at hpending
    cases hpending
  have h := hno hm hn
  have h' := hno hn hm
  omega

/-! What happens outside. -/

theorem Alone.of_eq (ha : Alone w) (hs : w'.saves = w.saves) (hr : w'.remote = w.remote)
    (hwritten : w'.written = w.written) : Alone w' := by
  have hversions : w'.versions = w.versions := congrArg (List.map _) hs
  constructor
  case unclaimed => rw [hversions, hr]; exact ha.unclaimed
  case named => rw [hversions, hr]; exact ha.named
  case pending =>
    intro n head hn
    rw [hversions, hr]
    refine ha.pending n head ⟨?_, ?_⟩
    · rw [← hversions]; exact hn.claimed
    · rw [← hwritten]; exact hn.unwritten
  case complete => rw [hversions, hr]; exact ha.complete
  case deleting => rw [hversions]; exact ha.deleting

/-- What is not written now was not before, and is not what was written last. -/
theorem World.Unwritten.earlier {replaced : Option String} (hs : w'.saves = w.saves)
    (hwritten : w'.written = ⟨x, replaced⟩ :: w.written) (hm : w'.Unwritten m head) :
    w.Unwritten m head ∧ x.revision ≠ m + 1 := by
  have hversions : w'.versions = w.versions := congrArg (List.map _) hs
  refine ⟨⟨?_, fun y hy => ?_⟩, ?_⟩
  · rw [← hversions]; exact hm.claimed
  · exact hm.unwritten y (by rw [hwritten]; exact List.mem_cons_of_mem _ hy)
  · exact hm.unwritten ⟨x, replaced⟩ (by rw [hwritten]; exact List.mem_cons_self)

/-- The push that lands is the pending one. -/
theorem Sound.landing_push (hw : Sound w) (ha : Alone w) (hx : x ∈ w.flight)
    (hmutation : x.mutation = .push lease head) (hs : w'.saves = w.saves)
    (hr : w'.remote = some head) (hwritten : w'.written = ⟨x, w.remote⟩ :: w.written) :
    Alone w' ∧ Remains w w' := by
  have hversions : w'.versions = w.versions := congrArg (List.map _) hs
  obtain ⟨n, hrevision, hunwritten⟩ := hw.unwritten hx hmutation
  have hpending : ∀ c, w.versions.getLast? = some c → c.pushIntent = some head :=
    fun c hc => ha.pending_last hunwritten hc
  have habsent : w.remote ≠ some head := (ha.pending n head hunwritten).1
  refine ⟨?_, ?_⟩
  · constructor
    case unclaimed =>
      intro hnone
      obtain ⟨new, hnew, -⟩ := hunwritten.claimed
      obtain ⟨c, hc⟩ := exists_last hnew
      rw [hversions, hc] at hnone
      cases hnone
    case named =>
      intro c hc
      rw [hversions] at hc
      have hintent := hpending c hc
      exact .inr (.inl ⟨by rw [hintent]; simp, hr.trans hintent.symm⟩)
    case pending =>
      intro m head' hm
      obtain ⟨hm, hne⟩ := hm.earlier hs hwritten
      have hsame : m = n := ha.pending_unique hm hunwritten
      exact absurd (hsame ▸ hrevision) hne
    case complete =>
      intro c hc _ hnone
      rw [hversions] at hc
      rw [hpending c hc] at hnone
      cases hnone
    case deleting => rw [hversions]; exact ha.deleting
  · constructor
    case seen =>
      intro c hc head' hintent hremote
      rw [hpending c hc] at hintent
      obtain rfl := Option.some.inj hintent
      exact absurd hremote habsent
    case absent =>
      intro c hc hintent _
      rw [hpending c hc] at hintent
      cases hintent

/-- No push is pending when a deletion lands. -/
theorem Sound.landing_delete {lease : String} (hw : Sound w) (ha : Alone w) (hx : x ∈ w.flight)
    (hmutation : x.mutation = .delete lease) (hs : w'.saves = w.saves)
    (hr : w'.remote = none) (hwritten : w'.written = ⟨x, w.remote⟩ :: w.written) :
    Alone w' ∧ Remains w w' := by
  have hversions : w'.versions = w.versions := congrArg (List.map _) hs
  have hissued : x ∈ w.issued := hw.landed.subset (List.mem_append_left _ hx)
  obtain ⟨n, new, hclaims⟩ := hw.claims x hissued
  have hclaimed := hclaims.claimed
  rw [hmutation] at hclaimed
  have hdeleted : ∀ c, w.versions.getLast? = some c → c.cleanup.deleteAttempted = true := by
    intro c hc
    have hlast : Kind.delete.attempted c :=
      hw.attempted_last (versions_of_saves hclaims.saved) hclaimed.1 hc
    exact hlast
  refine ⟨?_, ?_⟩
  · constructor
    case unclaimed => exact fun _ => hr
    case named =>
      intro c hc
      rw [hversions] at hc
      exact .inr (.inr ⟨hdeleted c hc, hr⟩)
    case pending =>
      intro m head hm
      obtain ⟨hm, -⟩ := hm.earlier hs hwritten
      rw [hversions, hr]
      exact ⟨by simp, (ha.pending m head hm).2⟩
    case complete => exact fun _ _ _ _ => hr
    case deleting => rw [hversions]; exact ha.deleting
  · constructor
    case seen =>
      intro c hc head hintent _
      rw [ha.deleting c hc (hdeleted c hc)] at hintent
      cases hintent
    case absent => exact fun _ _ _ _ => hr

/-- A write lands that found the branch as its lease says. -/
theorem Sound.landing {head' : Option String} (hw : Sound w) (ha : Alone w) (hx : x ∈ w.flight)
    (href : x.mutation.ref = some (w.remote, head')) (hs : w'.saves = w.saves)
    (hr : w'.remote = head') (hwritten : w'.written = ⟨x, w.remote⟩ :: w.written) :
    Alone w' ∧ Remains w w' := by
  cases hmutation : x.mutation with
  | push lease head =>
    rw [hmutation] at href
    obtain ⟨-, rfl⟩ := Prod.mk.inj (Option.some.inj href)
    exact hw.landing_push ha hx hmutation hs hr hwritten
  | delete lease =>
    rw [hmutation] at href
    obtain ⟨-, rfl⟩ := Prod.mk.inj (Option.some.inj href)
    exact hw.landing_delete ha hx hmutation hs hr hwritten
  | _ =>
    rw [hmutation] at href
    cases href

/-- The requests in flight and the branch change, and nothing else. -/
theorem Sound.moved (hw : Sound w) (hs : w'.saves = w.saves) (hi : w'.issued = w.issued)
    (hlanded : (w'.flight ++ w'.written.map (·.request)).Subperm w.issued)
    (hleased : ∀ x ∈ w'.written, ∃ head, x.request.mutation.ref = some (x.replaced, head))
    (hf : w'.foreign = false → w.foreign = false)
    (ha : w'.foreign = false → Alone w → Alone w' ∧ Remains w w') : Sound w' ∧ Rely i w w' := by
  have hsaves : w.saves <+: w'.saves := hs ▸ List.prefix_refl _
  have hversions : w'.versions = w.versions := congrArg (List.map _) hs
  have halone := fun hforeign => ha hforeign (hw.alone (hf hforeign))
  refine ⟨⟨?_, fun x hx => ?_, ?_, ?_, hleased, fun hforeign => (halone hforeign).1⟩, hsaves,
    fun x _ => by rw [hi], hf, fun hforeign _ => (halone hforeign).2⟩
  · rw [hversions]
    exact hw.succession
  · rw [hi] at hx
    obtain ⟨n, new, hclaims⟩ := hw.claims x hx
    exact ⟨n, new, hclaims.mono hsaves⟩
  · rw [hi]
    exact hw.distinct
  · rw [hi]
    exact hlanded

theorem Sound.land (hw : Sound w) (k : Nat) : Sound (w.land k) ∧ Rely i w (w.land k) := by
  unfold World.land
  split
  · exact ⟨hw, .refl⟩
  · rename_i request hk
    obtain ⟨hlt, hget⟩ := List.getElem?_eq_some_iff.mp hk
    have hx : request ∈ w.flight := List.mem_of_getElem? hk
    have hdropped : (w.flight.eraseIdx k ++ w.written.map (·.request)).Subperm w.issued := by
      have hsub := (List.eraseIdx_sublist w.flight k).append_right (w.written.map (·.request))
      exact hsub.subperm.trans hw.landed
    have hlost : Sound { w with flight := w.flight.eraseIdx k } ∧
        Rely i w { w with flight := w.flight.eraseIdx k } :=
      hw.moved rfl rfl hdropped hw.leased (fun h => h)
        fun _ ha => ⟨ha.of_eq rfl rfl rfl, .of_eq rfl⟩
    dsimp only
    split
    · rename_i lease head href
      split_ifs with hlease
      · refine hw.moved rfl rfl ?_ (fun x hx => ?_) (fun h => h) fun _ ha => ?_
        · -- The request moves from those in flight to those that were written.
          have hperm : (request :: w.flight.eraseIdx k).Perm w.flight := by
            rw [← hget]
            exact List.getElem_cons_eraseIdx_perm hlt
          have hmoved := hperm.append_right (w.written.map (·.request))
          exact (List.perm_middle.trans hmoved).subperm.trans hw.landed
        · rcases List.mem_cons.mp hx with rfl | hx
          · exact ⟨head, href⟩
          · exact hw.leased x hx
        · subst hlease
          exact hw.landing ha hx href rfl rfl rfl
      · exact hlost
    · exact hlost

theorem saves_land : (w.land k).saves = w.saves := by
  unfold World.land
  split
  · rfl
  · dsimp only
    split
    · split_ifs <;> rfl
    · rfl

theorem saves_outside : (w.outside moves).saves = w.saves := by
  induction moves generalizing w with
  | nil => rfl
  | cons mv rest ih =>
    have hmove : (w.move mv).saves = w.saves := by
      cases mv with
      | land k => exact saves_land
      | foreign head => rfl
    exact ih.trans hmove

theorem Sound.outside (hw : Sound w) : Sound (w.outside moves) ∧ Rely i w (w.outside moves) := by
  induction moves generalizing w with
  | nil => exact ⟨hw, .refl⟩
  | cons mv rest ih =>
    have hmoved : Sound (w.move mv) ∧ Rely i w (w.move mv) := by
      cases mv with
      | land k => exact hw.land k
      | foreign head =>
        have hno : ¬ (w.move (.foreign head)).foreign = false := by simp [World.move]
        exact hw.moved rfl rfl hw.landed hw.leased (fun h => absurd h hno)
          fun h => absurd h hno
    obtain ⟨hrest, hrely⟩ := ih hmoved.1
    exact ⟨hrest, hmoved.2.trans hrely⟩

/-! The calls that change something. -/

theorem map_change_ledger : w.ledger.map (·.change) = w.versions.getLast? := by
  simp [World.ledger, Function.comp_def]

theorem map_revision_ledger : w.ledger.map (·.revision) =
    w.versions.getLast?.map fun _ => w.saves.length := by
  simp [World.ledger, Function.comp_def]

/-- The world that a version was added to. -/
def World.saving (w : World) (i : Nat) (new : GithubChange) : World :=
  { w with saves := w.saves ++ [(i, new)] }

theorem versions_saving : (w.saving i new).versions = w.versions ++ [new] := by
  simp [World.versions, World.saving]

theorem saveGithubChange_cases (w : World) (i : Nat) (expected : Option Nat) (new : GithubChange) :
    (w.saveGithubChange i expected new).2 = w ∧
      (w.saveGithubChange i expected new).1 ≠ .ok true ∨
    w.ledger.map (·.revision) = expected ∧ new.follows w.versions.getLast? = true ∧
      w.saveGithubChange i expected new = (.ok true, w.saving i new) := by
  unfold World.saveGithubChange
  rw [map_change_ledger]
  split_ifs with hstale hfollows hlast
  · exact .inl ⟨rfl, by simp⟩
  · exact .inl ⟨rfl, by simp⟩
  · exact .inr ⟨not_not.mp hstale, by simpa using hfollows, rfl⟩
  · exact .inl ⟨rfl, by simp⟩

/-- What a version that is saved says of the branch is so. -/
structure Steps (w : World) (old new : GithubChange) : Prop where
  confirmed : ∀ head, old.pushIntent = some head → new.pushIntent = none → w.remote = some head
  intent : ∀ head, old.pushIntent = none → new.pushIntent = some head →
    old.cleanup = {} ∧ new.pushedHead ≠ some head
  complete : old.cleanup.complete = false → new.cleanup.complete = true →
    new.pushIntent = none → w.remote = none
  deleting : old.cleanup.deleteAttempted = false → new.cleanup.deleteAttempted = true →
    new.pushIntent = none

/-- A version that says nothing new of the branch. -/
theorem Steps.same (hintent : new.pushIntent = old.pushIntent)
    (hcomplete : new.cleanup.complete = old.cleanup.complete)
    (hdelete : new.cleanup.deleteAttempted = old.cleanup.deleteAttempted) : Steps w old new where
  confirmed head hold hnew := by rw [hintent, hold] at hnew; cases hnew
  intent head hold hnew := by rw [hintent, hold] at hnew; cases hnew
  complete hold hnew := by rw [hcomplete, hold] at hnew; cases hnew
  deleting hold hnew := by rw [hdelete, hold] at hnew; cases hnew

/-- A version that leaves the cleanup as it is. -/
theorem Steps.of_cleanup (hcleanup : new.cleanup = old.cleanup)
    (hconfirmed : ∀ head, old.pushIntent = some head → new.pushIntent = none →
      w.remote = some head)
    (hintent : ∀ head, old.pushIntent = none → new.pushIntent = some head →
      old.cleanup = {} ∧ new.pushedHead ≠ some head) : Steps w old new where
  confirmed := hconfirmed
  intent := hintent
  complete hold hnew := by rw [hcleanup, hold] at hnew; cases hnew
  deleting hold hnew := by rw [hcleanup, hold] at hnew; cases hnew

theorem Steps.of_push (hcleanup : old.cleanup = {}) (hnew : old.pushedHead ≠ some head) :
    Steps w old { old with pushIntent := some head } := by
  refine Steps.of_cleanup rfl ?_ ?_
  · exact fun _ _ hnone => by cases hnone
  · intro head' _ hsome
    obtain rfl := Option.some.inj hsome
    exact ⟨hcleanup, hnew⟩

theorem Steps.of_delete (hintent : old.pushIntent = none) : Steps w old { old with
    cleanup := { old.cleanup with deleteAttempted := true } } where
  confirmed head hold _ := by rw [hintent] at hold; cases hold
  intent head _ hnew := by rw [hintent] at hnew; cases hnew
  complete hold hnew := by rw [hold] at hnew; cases hnew
  deleting _ _ := hintent

theorem Steps.of_complete (habsent : old.pushIntent = none → w.remote = none) :
    Steps w old { old with cleanup := { old.cleanup with complete := true } } where
  confirmed head hold hnew := by rw [hold] at hnew; cases hnew
  intent head hold hnew := by rw [hold] at hnew; cases hnew
  complete _ _ hintent := habsent hintent
  deleting hold hnew := by rw [hold] at hnew; cases hnew

theorem Steps.remains (h : Steps w old new) (hr : Remains w w')
    (hlast : w.versions.getLast? = some old) : Steps w' old new where
  confirmed head hold hnew := hr.seen old hlast head hold (h.confirmed head hold hnew)
  intent := h.intent
  complete hold hnew hintent := by
    have hnone : w.remote = none := h.complete hold hnew hintent
    cases hpending : old.pushIntent with
    | none => exact hr.absent old hlast hpending hnone
    | some head =>
      rw [h.confirmed head hpending hintent] at hnone
      cases hnone
  deleting := h.deleting

/-- The first version of the ledger. -/
theorem Alone.creating (ha : Alone w) (h : new.follows none = true)
    (hnone : w.versions.getLast? = none) : Alone (w.saving i new) := by
  obtain ⟨hpushed, hintent, -, -, hcleanup⟩ := GithubChange.isNew_of_follows h
  have hversions : (w.saving i new).versions = [new] := by
    rw [versions_saving, List.getLast?_eq_none_iff.mp hnone]
    rfl
  have hremote : (w.saving i new).remote = none := ha.unclaimed hnone
  have hlast : ∀ c, (w.saving i new).versions.getLast? = some c → c = new := by
    intro c hc
    rw [hversions] at hc
    exact (Option.some.inj hc).symm
  constructor
  case unclaimed => exact fun _ => hremote
  case named =>
    intro c hc
    obtain rfl := hlast c hc
    exact .inl (hremote.trans hpushed.symm)
  case pending =>
    intro n head hn
    obtain ⟨c, hc, hhead, -⟩ := hn.claimed
    rw [hversions] at hc
    obtain rfl : c = new := List.mem_singleton.mp (List.mem_of_getElem? hc)
    rw [hintent] at hhead
    cases hhead
  case complete => exact fun _ _ _ _ => hremote
  case deleting =>
    intro c hc hdelete
    obtain rfl := hlast c hc
    exact hintent

/-! A version that follows another, and says of the branch what is so. -/

theorem Alone.named_saving (ha : Alone w) (hlast : w.versions.getLast? = some old)
    (hkeeps : GithubChange.Keeps old new) (hd : Steps w old new) : w.remote = new.pushedHead ∨
      new.pushIntent ≠ none ∧ w.remote = new.pushIntent ∨
      new.cleanup.deleteAttempted = true ∧ w.remote = none := by
  rcases ha.named old hlast with hr | ⟨hne, hr⟩ | ⟨hdeleted, hr⟩
  · left
    cases hintent : old.pushIntent with
    | none => exact hr.trans (hkeeps.pushed hintent).symm
    | some head =>
      rcases hkeeps.pending head hintent with ⟨-, hsame⟩ | ⟨hnone, hconfirmed⟩
      · exact hr.trans hsame.symm
      · exact (hd.confirmed head hintent hnone).trans hconfirmed.symm
  · obtain ⟨head, hintent⟩ := Option.ne_none_iff_exists'.mp hne
    rcases hkeeps.pending head hintent with ⟨hstill, -⟩ | ⟨-, hconfirmed⟩
    · exact .inr (.inl ⟨by rw [hstill]; simp, hr.trans (hintent.trans hstill.symm)⟩)
    · exact .inl (hr.trans (hintent.trans hconfirmed.symm))
  · exact .inr (.inr ⟨hkeeps.delete hdeleted, hr⟩)

/-- A push that was pending before stays so, since it was not seen on the branch. -/
theorem Alone.pending_earlier (ha : Alone w) (hlast : w.versions.getLast? = some old)
    (hkeeps : GithubChange.Keeps old new) (hd : Steps w old new) (hn : w.Unwritten n head)
    (hle : n ≤ k) (hc : (w.saving i new).versions[k]? = some c) : c.pushIntent = some head := by
  obtain ⟨habsent, hstays⟩ := ha.pending n head hn
  rw [versions_saving] at hc
  by_cases hlt : k < w.versions.length
  · rw [List.getElem?_append_left hlt] at hc
    exact hstays k c hle hc
  · rw [List.getElem?_append_right (Nat.not_lt.mp hlt)] at hc
    obtain rfl : c = new := List.mem_singleton.mp (List.mem_of_getElem? hc)
    have hpending : old.pushIntent = some head := ha.pending_last hn hlast
    rcases hkeeps.pending head hpending with ⟨hstill, -⟩ | ⟨hnone, -⟩
    · exact hstill
    · exact absurd (hd.confirmed head hpending hnone) habsent

/-- A push that the new version claims is not on the branch yet. -/
theorem Alone.claiming (ha : Alone w) (hlast : w.versions.getLast? = some old)
    (hkeeps : GithubChange.Keeps old new) (hd : Steps w old new) (hnone : old.pushIntent = none)
    (hnew : new.pushIntent = some head) : w.remote ≠ some head := by
  obtain ⟨hcleanup, hother⟩ := hd.intent head hnone hnew
  rcases ha.named old hlast with hr | ⟨hne, -⟩ | ⟨hdeleted, -⟩
  · rw [hr, ← hkeeps.pushed hnone]
    exact hother
  · exact absurd hnone hne
  · rw [hcleanup] at hdeleted
    cases hdeleted

theorem Alone.pending_saving (ha : Alone w) (hlast : w.versions.getLast? = some old)
    (hkeeps : GithubChange.Keeps old new) (hd : Steps w old new)
    (hn : (w.saving i new).Unwritten n head) : w.remote ≠ some head ∧
      ∀ k c, n ≤ k → (w.saving i new).versions[k]? = some c → c.pushIntent = some head := by
  have hversions : (w.saving i new).versions = w.versions ++ [new] := versions_saving
  obtain ⟨c, hc, hhead, hbefore⟩ := hn.claimed
  by_cases hlt : n < w.versions.length
  · have hunwritten : w.Unwritten n head := by
      refine ⟨⟨c, ?_, hhead, ?_⟩, hn.unwritten⟩
      · rw [hversions, List.getElem?_append_left hlt] at hc
        exact hc
      · rw [hversions, before_append (Nat.le_of_lt hlt)] at hbefore
        exact hbefore
    exact ⟨(ha.pending n head hunwritten).1,
      fun k d hle hd' => ha.pending_earlier hlast hkeeps hd hunwritten hle hd'⟩
  · have heq : n = w.versions.length := by
      have hlength := (List.getElem?_eq_some_iff.mp hc).1
      rw [hversions, List.length_append, List.length_singleton] at hlength
      omega
    subst heq
    rw [hversions, List.getElem?_concat_length] at hc
    obtain rfl := Option.some.inj hc
    have hnone : old.pushIntent = none := by
      obtain ⟨k, hk, hold⟩ := last_index hlast
      apply hbefore
      rw [hversions, before_append (Nat.le_refl _), length_versions, ← hk]
      exact hold
    refine ⟨ha.claiming hlast hkeeps hd hnone hhead, fun k d hle hd' => ?_⟩
    rw [hversions, List.getElem?_append_right hle] at hd'
    obtain rfl : d = new := List.mem_singleton.mp (List.mem_of_getElem? hd')
    exact hhead

theorem Alone.deleting_saving (ha : Alone w) (hlast : w.versions.getLast? = some old)
    (hd : Steps w old new) (hdelete : new.cleanup.deleteAttempted = true) :
    new.pushIntent = none := by
  cases hdone : old.cleanup.deleteAttempted with
  | false => exact hd.deleting hdone hdelete
  | true =>
    have hnone : old.pushIntent = none := ha.deleting old hlast hdone
    cases hintent : new.pushIntent with
    | none => rfl
    | some head =>
      obtain ⟨hcleanup, -⟩ := hd.intent head hnone hintent
      rw [hcleanup] at hdone
      cases hdone

theorem Alone.saving (ha : Alone w) (hlast : w.versions.getLast? = some old)
    (h : new.follows (some old) = true) (hd : Steps w old new) : Alone (w.saving i new) := by
  have hkeeps := GithubChange.keeps_of_follows h
  have hnew : ∀ c, (w.saving i new).versions.getLast? = some c → c = new := by
    intro c hc
    rw [versions_saving, List.getLast?_concat] at hc
    exact (Option.some.inj hc).symm
  constructor
  case unclaimed =>
    intro hnone
    rw [versions_saving, List.getLast?_concat] at hnone
    cases hnone
  case named =>
    intro c hc
    obtain rfl := hnew c hc
    exact ha.named_saving hlast hkeeps hd
  case pending => exact fun n head hn => ha.pending_saving hlast hkeeps hd hn
  case complete =>
    intro c hc hcomplete hintent
    obtain rfl := hnew c hc
    cases hdone : old.cleanup.complete with
    | true =>
      have hsame : c = old := hkeeps.complete hdone
      exact ha.complete old hlast hdone (hsame ▸ hintent)
    | false => exact hd.complete hdone hcomplete hintent
  case deleting =>
    intro c hc hdelete
    obtain rfl := hnew c hc
    exact ha.deleting_saving hlast hd hdelete

theorem Sound.saving (hw : Sound w) (h : new.follows w.versions.getLast? = true)
    (hd : w.foreign = false → ∀ old, w.versions.getLast? = some old → Steps w old new) :
    Sound (w.saving i new) ∧ Rely j w (w.saving i new) := by
  have hsaves : w.saves <+: (w.saving i new).saves := List.prefix_append _ _
  refine ⟨⟨?_, fun x hx => ?_, hw.distinct, hw.landed, hw.leased, fun hf => ?_⟩,
    hsaves, fun _ _ => .rfl, fun hf => hf, fun _ hsame => ?_⟩
  · rw [versions_saving]
    exact hw.succession.concat h
  · obtain ⟨n, c, hclaims⟩ := hw.claims x hx
    exact ⟨n, c, hclaims.mono hsaves⟩
  · have ha : Alone w := hw.alone hf
    cases hlast : w.versions.getLast? with
    | none =>
      rw [hlast] at h
      exact ha.creating h hlast
    | some old =>
      rw [hlast] at h
      exact ha.saving hlast h (hd hf old hlast)
  · exact absurd hsame (by simp [World.saving])

theorem Sound.save (hw : Sound w) (hd : w.foreign = false → ∀ old,
    w.versions.getLast? = some old → expected = some w.saves.length → Steps w old new) :
    Sound (w.saveGithubChange i expected new).2 ∧
      Rely j w (w.saveGithubChange i expected new).2 := by
  rcases saveGithubChange_cases w i expected new with ⟨heq, -⟩ | ⟨hrevision, hfollows, heq⟩
  · rw [heq]
    exact ⟨hw, .refl⟩
  · rw [heq]
    refine hw.saving hfollows fun hf old hlast => hd hf old hlast ?_
    rw [← hrevision, map_revision_ledger, hlast]
    rfl

/-- The world that a request was made in. -/
def World.asking (w : World) (x : Request) : World :=
  { w with flight := x :: w.flight, issued := x :: w.issued }

theorem Sound.asking (hw : Sound w) (hx : w.Claims x n new)
    (hfresh : ∀ y ∈ w.issued, x.revision ≠ y.revision) :
    Sound (w.asking x) ∧ ∀ j, j ≠ x.process → Rely j w (w.asking x) := by
  have hsame : w.saves <+: (w.asking x).saves := List.prefix_refl _
  refine ⟨⟨hw.succession, fun y hy => ?_, List.pairwise_cons.mpr ⟨hfresh, hw.distinct⟩, ?_,
    hw.leased, fun hf => (hw.alone hf).of_eq rfl rfl rfl⟩,
    fun j hj => ⟨hsame, fun y hy => ?_, fun hf => hf, fun _ _ => .of_eq rfl⟩⟩
  · rcases List.mem_cons.mp hy with rfl | hy
    · exact ⟨n, new, hx.mono hsame⟩
    · obtain ⟨m, c, hclaims⟩ := hw.claims y hy
      exact ⟨m, c, hclaims.mono hsame⟩
  · exact (List.subperm_cons x).mpr hw.landed
  · constructor
    · intro hmem
      rcases List.mem_cons.mp hmem with rfl | hmem
      · exact absurd hy.symm hj
      · exact hmem
    · exact List.mem_cons_of_mem _

/-! The rule for one call. -/

/-- What a worker owes when it makes a call. -/
def Duty (i : Nat) (w : World) : Call → Prop
  | .save process expected change => process = i ∧ (w.foreign = false → ∀ old,
      w.versions.getLast? = some old → expected = some w.saves.length → Steps w old change)
  | .issue x => x.process = i ∧ (∃ n new, w.Claims x n new) ∧
      ∀ y ∈ w.issued, x.revision ≠ y.revision
  | _ => True

theorem Sound.perform {c : Call} (hw : Sound w) (hd : Duty i w c) :
    Sound (w.perform a c).2 ∧ ∀ j, j ≠ i → Rely j w (w.perform a c).2 := by
  cases c with
  | save process expected change => exact ⟨(hw.save (j := i) hd.2).1, fun j _ => (hw.save hd.2).2⟩
  | issue x =>
    obtain ⟨rfl, ⟨n, new, hclaims⟩, hfresh⟩ := hd
    obtain ⟨hsound, hrely⟩ := hw.asking hclaims hfresh
    simp only [World.perform]
    split_ifs
    · exact ⟨(hsound.land (i := x.process) 0).1, fun j hj => (hrely j hj).trans (hsound.land 0).2⟩
    · exact ⟨hsound, hrely⟩
  | _ => exact ⟨hw, fun _ _ => .refl⟩

/-- What others move does not undo a duty. -/
theorem Duty.outside {c : Call} (hd : Duty i w c) (hw : Sound w) :
    Duty i (w.outside moves) c := by
  have hrely : ∀ j, Rely j w (w.outside moves) := fun j => hw.outside.2
  have hsaves : (w.outside moves).saves = w.saves := saves_outside
  have hversions : (w.outside moves).versions = w.versions := congrArg (List.map _) hsaves
  cases c with
  | save process expected change =>
    obtain ⟨hi, hsteps⟩ := hd
    refine ⟨hi, fun hf old hlast hexpected => ?_⟩
    rw [hversions] at hlast
    rw [hsaves] at hexpected
    have hremains : Remains w (w.outside moves) := (hrely i).remains hf hsaves
    exact (hsteps ((hrely i).foreign hf) old hlast hexpected).remains hremains hlast
  | issue x =>
    obtain ⟨hi, ⟨n, new, hclaims⟩, hfresh⟩ := hd
    refine ⟨hi, ⟨n, new, hclaims.mono (hrely i).saves⟩, fun y hy => ?_⟩
    exact hfresh y (((hrely y.process).issued y rfl).mp hy)
  | _ => exact hd

/-- A call finds the world as it was moved, and either does what it is for there, or fails and
leaves it so. -/
theorem exec_cases {c : Call} : w.exec a c = (w.outside a.moves).perform a c ∨
    ∃ reason, (w.exec a c).1 = .error reason ∧ ((w.exec a c).2 = w.outside a.moves ∨
      (w.exec a c).2 = ((w.outside a.moves).perform a c).2) := by
  unfold World.exec
  cases hfault : a.fault with
  | none => exact .inl rfl
  | some reason =>
    refine .inr ⟨reason, ?_, ?_⟩
    · cases c <;> rfl
    · by_cases hlanded : a.landed = true
      · right
        cases c <;> simp [hlanded]
      · cases c with
        | issue request => exact .inr rfl
        | _ => simp [hlanded]

theorem Sound.exec {c : Call} (hw : Sound w) (hd : Duty i w c) :
    Sound (w.exec a c).2 ∧ ∀ j, j ≠ i → Rely j w (w.exec a c).2 := by
  have hmoved : ∀ j, Sound (w.outside a.moves) ∧ Rely j w (w.outside a.moves) :=
    fun j => hw.outside
  obtain ⟨hsound, hrely⟩ := (hmoved i).1.perform (a := a) (hd.outside hw)
  have hdone := And.intro hsound fun j (hj : j ≠ i) => (hmoved j).2.trans (hrely j hj)
  rcases exec_cases (w := w) (a := a) (c := c) with heq | ⟨-, -, heq | heq⟩
  · rw [heq]
    exact hdone
  · rw [heq]
    exact ⟨(hmoved i).1, fun j _ => (hmoved j).2⟩
  · rw [heq]
    exact hdone

end Agend.Github
