import Mathlib.Algebra.Group.Nat.Defs
import Agend.Github.Procedures

/-! What the workers of a task ask of GitHub in every run, at whatever calls they take turns, fail
or end, and whenever their requests land. -/
namespace Agend.Github

open Library Program GithubChange

abbrev History (task : String) :=
  List (Transition (Pool interface) (Pool.Turn interface (system task).Task) Unit)

variable {task : String} {h : History task} {p : Pool interface} {w : World} {i m n : Nat}
  {x y : Request} {old new c u v : GithubChange} {previous : Option GithubChange}
  {mutation : Mutation} {kind : Kind} {vs : List GithubChange}

/-! What a version says of each mutation. -/

theorem lasting_complete (hv : v.cleanup.complete = true) : Lasting Follows fun c => c = v := by
  intro old new h hold
  subst hold
  exact (keeps_of_follows h).complete hv

theorem lasting_identity : Lasting Follows fun c => c.identity = v.identity :=
  fun _ _ h hold => (keeps_of_follows h).identity.trans hold

/-- A claim begins its attempt. -/
theorem Claimed.begins (hc : Claimed previous new mutation) (hpush : mutation.kind ≠ .push) :
    mutation.kind.attempted new ∧ ∀ old, previous = some old → ¬ mutation.kind.attempted old := by
  cases mutation with
  | push lease head => exact absurd rfl hpush
  | create title body head base =>
    obtain ⟨hnew, hold⟩ := hc
    exact ⟨hnew, fun old hprevious => by simp [Mutation.kind, Kind.attempted, hold old hprevious]⟩
  | merge number sha =>
    obtain ⟨hnew, -, hold⟩ := hc
    refine ⟨?_, fun old hprevious => ?_⟩
    · simp [Mutation.kind, Kind.attempted, hnew]
    · simp [Mutation.kind, Kind.attempted, hold old hprevious]
  | close number =>
    obtain ⟨hnew, -, hold⟩ := hc
    exact ⟨hnew, fun old hprevious => by simp [Mutation.kind, Kind.attempted, hold old hprevious]⟩
  | delete lease =>
    obtain ⟨hnew, -, -, hold⟩ := hc
    exact ⟨hnew, fun old hprevious => by simp [Mutation.kind, Kind.attempted, hold old hprevious]⟩

/-- A push is claimed before any merge, close or deletion. -/
theorem Claimed.unattempted (hc : Claimed previous new mutation) (hpush : mutation.kind = .push)
    (hkind : kind ≠ .create) : ¬ kind.attempted new := by
  cases mutation with
  | push lease head =>
    obtain ⟨-, -, hcleanup, hmerge, -⟩ := hc
    cases kind with
    | push => exact fun hno => hno
    | create => exact absurd rfl hkind
    | merge => simp [Kind.attempted, hmerge]
    | close => simp [Kind.attempted, hcleanup]
    | delete => simp [Kind.attempted, hcleanup]
  | _ => cases hpush

/-! The order of the claims. -/

theorem World.Claims.version (h : w.Claims x n new) : w.versions[n]? = some new :=
  versions_of_saves h.saved

theorem Sound.lasts (hw : Sound w) (hx : w.Claims x n new) (hkind : kind.attempted new)
    (hle : n ≤ m) (hc : w.versions[m]? = some c) : kind.attempted c :=
  hw.succession.lasts (lasting_attempted kind) hx.version hkind hle hc

theorem World.Claims.beginsAt (hx : w.Claims x n new) (hpush : x.mutation.kind ≠ .push) :
    Begins x.mutation.kind.attempted w.versions n := by
  obtain ⟨hnew, hold⟩ := hx.claimed.begins hpush
  exact ⟨⟨new, hx.version, hnew⟩, hold⟩

/-- One version claims one request. -/
theorem Sound.eq_of_revision (hw : Sound w) (hx : x ∈ w.issued) (hy : y ∈ w.issued)
    (h : x.revision = y.revision) : x = y := by
  have hnodup : (w.issued.map (·.revision)).Nodup := List.pairwise_map.mpr hw.distinct
  exact List.inj_on_of_nodup_map hnodup hx hy h

theorem Sound.claimed_once (hw : Sound w) (hx : x ∈ w.issued) (hy : y ∈ w.issued)
    (hkind : x.mutation.kind = y.mutation.kind) (hpush : x.mutation.kind ≠ .push) : x = y := by
  obtain ⟨m, u, hclaimsx⟩ := hw.claims x hx
  obtain ⟨n, v, hclaimsy⟩ := hw.claims y hy
  have hbegins := hclaimsy.beginsAt (hkind ▸ hpush)
  rw [← hkind] at hbegins
  have hsame : m = n :=
    hw.succession.begins_once (lasting_attempted _) (hclaimsx.beginsAt hpush) hbegins
  apply hw.eq_of_revision hx hy
  rw [hclaimsx.revision, hclaimsy.revision, hsame]

theorem Sound.pushed_before (hw : Sound w) (hx : x ∈ w.issued) (hy : y ∈ w.issued)
    (hpush : x.mutation.kind = .push) (hother : y.mutation.kind ≠ .push)
    (hcreate : y.mutation.kind ≠ .create) : x.revision < y.revision := by
  obtain ⟨m, u, hclaimsx⟩ := hw.claims x hx
  obtain ⟨n, v, hclaimsy⟩ := hw.claims y hy
  have hattempted := (hclaimsy.claimed.begins hother).1
  have hlt : m < n := by
    by_contra hle
    have hlasts := hw.lasts hclaimsy hattempted (Nat.not_lt.mp hle) hclaimsx.version
    exact hclaimsx.claimed.unattempted hpush hcreate hlasts
  rw [hclaimsx.revision, hclaimsy.revision]
  omega

/-- A merge is claimed before any cleanup. -/
theorem Sound.merged_before (hw : Sound w) (hx : x ∈ w.issued) (hy : y ∈ w.issued)
    (hmerge : x.mutation.kind = .merge) (hother : y.mutation.kind = .close ∨
      y.mutation.kind = .delete) : x.revision < y.revision := by
  obtain ⟨m, u, hclaimsx⟩ := hw.claims x hx
  obtain ⟨n, v, hclaimsy⟩ := hw.claims y hy
  have hne : m ≠ n := by
    intro hsame
    have heq : x = y := hw.eq_of_revision hx hy (by
      rw [hclaimsx.revision, hclaimsy.revision, hsame])
    rw [heq] at hmerge
    rcases hother with h | h <;> rw [h] at hmerge <;> cases hmerge
  have hlt : ¬ n < m := by
    intro hlt
    obtain ⟨m, rfl⟩ : ∃ k, m = k + 1 := ⟨m - 1, by omega⟩
    have hlength : m + 1 < w.versions.length :=
      (List.getElem?_eq_some_iff.mp hclaimsx.version).1
    obtain ⟨old, hold⟩ : ∃ old, w.versions[m]? = some old := exists_version (by omega)
    -- The version before the claim had no merge, so there was no cleanup either.
    have hbegins := hclaimsx.claimed.begins (by rw [hmerge]; simp)
    rw [hmerge] at hbegins
    have hfollows := hw.succession.step (m + 1) u hclaimsx.version
    rw [before_succ, hold] at hfollows
    have hnone : old.mergeHead = none := by
      have hno := hbegins.2 old hold
      simpa [Kind.attempted] using hno
    obtain ⟨hclean, -⟩ := (keeps_of_follows hfollows).mergeable hnone hbegins.1
    have hattempted : y.mutation.kind.attempted v :=
      (hclaimsy.claimed.begins (by rcases hother with h | h <;> rw [h] <;> simp)).1
    have hlasts : y.mutation.kind.attempted old := hw.lasts hclaimsy hattempted (by omega) hold
    rcases hother with h | h <;> rw [h] at hlasts <;> simp [Kind.attempted, hclean] at hlasts
  have hrevisionx := hclaimsx.revision
  have hrevisiony := hclaimsy.revision
  omega

theorem Sound.not_closed (hw : Sound w) (hx : x ∈ w.issued) (hy : y ∈ w.issued)
    (hmerge : x.mutation.kind = .merge) : y.mutation.kind ≠ .close := by
  intro hclose
  have hlt := hw.merged_before hx hy hmerge (.inl hclose)
  obtain ⟨m, u, hclaimsx⟩ := hw.claims x hx
  obtain ⟨n, v, hclaimsy⟩ := hw.claims y hy
  have hattempted := (hclaimsx.claimed.begins (by rw [hmerge]; simp)).1
  rw [hmerge] at hattempted
  have hle : m ≤ n := by
    have hrevisionx := hclaimsx.revision
    have hrevisiony := hclaimsy.revision
    omega
  have hlasts : Kind.merge.attempted v := hw.lasts hclaimsx hattempted hle hclaimsy.version
  have hclaimed := hclaimsy.claimed
  cases hmutation : y.mutation with
  | close number =>
    rw [hmutation] at hclaimed
    simp [Kind.attempted, hclaimed.2.1] at hlasts
  | _ =>
    rw [hmutation] at hclose
    cases hclose

theorem Sound.not_complete (hw : Sound w) (hx : x ∈ w.issued) (hv : w.versions[n]? = some v)
    (hcomplete : v.cleanup.complete = true) : x.revision ≤ n + 1 := by
  obtain ⟨m, new, hclaims⟩ := hw.claims x hx
  rw [hclaims.revision]
  by_contra hlt
  obtain ⟨m, rfl⟩ : ∃ k, m = k + 1 := ⟨m - 1, by omega⟩
  have hlength : m + 1 < w.versions.length := (List.getElem?_eq_some_iff.mp hclaims.version).1
  obtain ⟨old, hold⟩ : ∃ old, w.versions[m]? = some old := exists_version (by omega)
  have hsame : ∀ k c, n ≤ k → w.versions[k]? = some c → c = v := by
    intro k c hle hc
    have hlasts := hw.succession.lasts (lasting_complete hcomplete) hv rfl hle hc
    exact hlasts
  obtain rfl := hsame m old (by omega) hold
  obtain rfl := hsame (m + 1) new (by omega) hclaims.version
  have hclaimed := hclaims.claimed
  rw [before_succ, hold] at hclaimed
  by_cases hpush : x.mutation.kind = .push
  · cases hmutation : x.mutation with
    | push lease head =>
      rw [hmutation] at hclaimed
      simp [hclaimed.2.2.1] at hcomplete
    | _ =>
      rw [hmutation] at hpush
      cases hpush
  · obtain ⟨hnew, hbefore⟩ := hclaimed.begins hpush
    exact hbefore new rfl hnew

/-! Leases. -/

/-- The head of the last push that the versions claim. -/
def lastPushed (vs : List GithubChange) : Option String := vs.reverse.findSome? (·.pushIntent)

theorem lastPushed_concat : lastPushed (vs ++ [c]) = c.pushIntent.or (lastPushed vs) := by
  simp only [lastPushed, List.reverse_append, List.reverse_singleton, List.singleton_append,
    List.findSome?_cons]
  cases c.pushIntent <;> rfl

/-- Where no push is pending, the pushed head is that of the last one. -/
theorem pushedHead_eq (hs : Succession Follows vs) (hc : vs[n]? = some c)
    (hintent : c.pushIntent = none) : c.pushedHead = lastPushed (vs.take (n + 1)) := by
  induction n generalizing c with
  | zero =>
    have hnew := isNew_of_follows (hs.step 0 c hc)
    have htake : vs.take 1 = [] ++ [c] := by
      rw [List.take_add_one, hc]
      rfl
    rw [htake, lastPushed_concat, hnew.1, hnew.2.1]
    rfl
  | succ n ih =>
    have hlength : n + 1 < vs.length := (List.getElem?_eq_some_iff.mp hc).1
    obtain ⟨old, hold⟩ : ∃ old, vs[n]? = some old := exists_version (by omega)
    have hfollows := hs.step (n + 1) c hc
    rw [before_succ, hold] at hfollows
    have hkeeps := keeps_of_follows hfollows
    have htake : ∀ k d, vs[k]? = some d → vs.take (k + 1) = vs.take k ++ [d] := by
      intro k d hd
      rw [List.take_add_one, hd]
      rfl
    rw [htake (n + 1) c hc, lastPushed_concat, hintent, Option.none_or]
    cases hpending : old.pushIntent with
    | none =>
      rw [hkeeps.pushed hpending]
      exact ih hold hpending
    | some head =>
      rw [htake n old hold, lastPushed_concat, hpending]
      rcases hkeeps.pending head hpending with ⟨hstill, -⟩ | ⟨-, hpushed⟩
      · rw [hintent] at hstill
        cases hstill
      · exact hpushed

/-- A write is leased on the head of the last push before it. -/
theorem Sound.leased_last {lease head : Option String} (hw : Sound w) (hx : x ∈ w.issued)
    (href : x.mutation.ref = some (lease, head)) :
    lease = lastPushed (w.versions.take (x.revision - 1)) := by
  obtain ⟨n, new, hclaims⟩ := hw.claims x hx
  have hclaimed := hclaims.claimed
  rw [hclaims.revision, Nat.add_sub_cancel]
  cases hmutation : x.mutation with
  | push lease' head' =>
    rw [hmutation] at hclaimed href
    obtain ⟨hintent, hpushed, -, -, hbefore⟩ := hclaimed
    obtain ⟨rfl, -⟩ := Prod.mk.inj (Option.some.inj href)
    have hfollows := hw.succession.step n new hclaims.version
    cases n with
    | zero =>
      rw [before_zero] at hfollows
      rw [(isNew_of_follows hfollows).2.1] at hintent
      cases hintent
    | succ n =>
      have hlength : n + 1 < w.versions.length :=
        (List.getElem?_eq_some_iff.mp hclaims.version).1
      obtain ⟨old, hold⟩ : ∃ old, w.versions[n]? = some old := exists_version (by omega)
      rw [before_succ, hold] at hfollows
      have hnone : old.pushIntent = none := hbefore old hold
      rw [← hpushed, (keeps_of_follows hfollows).pushed hnone]
      exact pushedHead_eq hw.succession hold hnone
  | delete lease' =>
    rw [hmutation] at hclaimed href
    obtain ⟨-, hpushed, hintent, -⟩ := hclaimed
    obtain ⟨rfl, -⟩ := Prod.mk.inj (Option.some.inj href)
    have hlast := pushedHead_eq hw.succession hclaims.version hintent
    have htake : w.versions.take (n + 1) = w.versions.take n ++ [new] := by
      rw [List.take_add_one, hclaims.version]
      rfl
    rw [htake, lastPushed_concat, hintent, Option.none_or] at hlast
    exact hpushed.symm.trans hlast
  | _ =>
    rw [hmutation] at href
    cases href

/-! Runs. -/

/-- The task has no row yet, and nothing was asked for; a branch that is there is somebody
else's. -/
structure Starts (w : World) : Prop where
  remote : w.foreign = false → w.remote = none
  saves : w.saves = []
  flight : w.flight = []
  issued : w.issued = []
  written : w.written = []

theorem Starts.sound (h : Starts w) : Sound w where
  succession := by
    rw [World.versions, h.saves]
    exact .nil
  claims x hx := by
    rw [h.issued] at hx
    cases hx
  distinct := by
    rw [h.issued]
    exact .nil
  landed := by
    rw [h.flight, h.written, h.issued]
    exact List.Subperm.refl _
  leased x hx := by
    rw [h.written] at hx
    cases hx
  alone hforeign := by
    have hnone : w.versions = [] := by rw [World.versions, h.saves]; rfl
    have hlast : w.versions.getLast? = none := by rw [hnone]; rfl
    refine ⟨fun _ => h.remote hforeign, fun c hc => ?_, fun n head hn => ?_, fun c hc => ?_,
      fun c hc => ?_⟩
    · rw [hlast] at hc
      cases hc
    · obtain ⟨new, hnew, -⟩ := hn.claimed
      rw [hnone] at hnew
      cases hnew
    · rw [hlast] at hc
      cases hc
    · rw [hlast] at hc
      cases hc

theorem keeps : (system task).Keeps pact fun _ _ _ => True where
  keep _ _ _ _ hw _ hd := Sound.exec hw hd
  leave _ _ hw := ⟨hw, fun _ _ => Rely.refl⟩
  main _ _ _ _ _ := Runs.mono main_leaves fun _ _ _ _ => trivial

/-- Whatever GitHub answers, and whoever else writes the branch. -/
theorem sound_of_run (hr : ((system task).machine Starts).Run h p) : Sound p.world := by
  have hmeets : ∀ t ∈ h, System.Meets (S := system task) pact (fun _ _ _ => True) t := by
    intro t _
    obtain ⟨before, event, after, _⟩ := t
    cases event with
    | start i work => trivial
    | act i a => exact fun _ _ _ => trivial
    | leave i => trivial
  exact (keeps.run (fun _ hs => hs.sound) hr hmeets).1.safe

/-! A run in which the first worker dies when it has asked for a pull request, the second submits
again and finds it, the third merges it and has no reply, and the last deletes the branch. -/

namespace Handover

def head : String := "0123456789abcdef0123456789abcdef01234567"

def branch : String := "agend/7/fix"

def change : GithubChange :=
  ⟨⟨"7", "/r", head, 5, "main", branch, head⟩, none, none, none, false, none, {}⟩

def pull (merged : Bool) : Pull :=
  ⟨9, 5, some ("b\n\n" ++ marker change), head, merged, merged, some head⟩

abbrev Turn := Pool.Turn interface (system "7").Task

def quiet : Answer := { text := head, number := 5, landed := true }

def found : Answer := { quiet with page := [9], pull := pull false }

def merged : Answer := { quiet with pull := pull true, commit := ⟨head, [head, head]⟩ }

def lost : Answer := { quiet with fault := some "timeout" }

def acts (i n : Nat) (a : Answer) : List Turn := List.replicate n (.act i a)

def start : Pool interface := ⟨⟨[], none, [], [], [], false⟩, fun _ => none⟩

def played (turns : List (List Turn)) : History "7" × Pool interface :=
  (system "7").play [] start turns.flatten

def turns : List (List Turn) :=
  [[.start 1 (.submit "/r" ⟨branch, "t", "b"⟩)], acts 1 19 quiet, [.leave 1],
    [.start 2 (.submit "/r" ⟨branch, "t", "b"⟩)], acts 2 13 found, [.leave 2],
    [.start 3 (.merge "/r" branch head)], acts 3 8 found, acts 3 1 lost, acts 3 3 merged,
    [.start 4 (.cleanup "/r" true)], acts 4 11 merged]

theorem run_played (turns : List (List Turn)) :
    ((system "7").machine Starts).Run (played turns).1 (played turns).2 :=
  System.run_play (.start ⟨⟨fun _ => rfl, rfl, rfl, rfl, rfl⟩, fun _ => rfl⟩) turns.flatten

theorem played_turns :
    let w := (played turns).2.world
    (w.issued.map (·.mutation.kind) = [.delete, .merge, .create, .push] ∧
        w.written.map (·.replaced) = [some head, none] ∧ w.remote = none) ∧
      w.foreign = false ∧ w.versions.length = 8 ∧
        (w.versions.getLast?.map (·.cleanup.complete)) = some true := by
  decide +kernel

end Handover

/-! Mutations. -/

/-- What was asked for: each request is claimed by a version of its own, that its worker saved
first. -/
structure AttemptedOnce (w : World) : Prop where
  identity : ∀ u ∈ w.versions, ∀ v ∈ w.versions, u.identity = v.identity
  claimed : ∀ x ∈ w.issued, ∃ n new, w.Claims x n new
  distinct : (w.issued.map (·.revision)).Nodup
  /-- One pull request is created, merged or closed, and the branch is deleted, at most once. -/
  once : ∀ x ∈ w.issued, ∀ y ∈ w.issued, x.mutation.kind = y.mutation.kind →
    x.mutation.kind ≠ .push → x = y
  /-- No version after that of a merge, a close or a deletion claims a push. -/
  pushed : ∀ x ∈ w.issued, ∀ y ∈ w.issued, x.mutation.kind = .push → y.mutation.kind ≠ .push →
    y.mutation.kind ≠ .create → x.revision < y.revision
  merged : ∀ x ∈ w.issued, ∀ y ∈ w.issued, x.mutation.kind = .merge →
    y.mutation.kind ≠ .close ∧ (y.mutation.kind = .delete → x.revision < y.revision)
  /-- No version after the end of the cleanup claims anything. -/
  complete : ∀ x ∈ w.issued, ∀ n v, w.versions[n]? = some v → v.cleanup.complete = true →
    x.revision ≤ n + 1

theorem Sound.identity_eq (hw : Sound w) {u v : GithubChange} (hu : u ∈ w.versions)
    (hv : v ∈ w.versions) : u.identity = v.identity := by
  obtain ⟨first, hfirst⟩ : ∃ first, w.versions[0]? = some first :=
    exists_version (List.length_pos_of_mem hu)
  have hsame : ∀ c ∈ w.versions, c.identity = first.identity := by
    intro c hc
    obtain ⟨n, hn⟩ := List.mem_iff_getElem?.mp hc
    have hlasts := hw.succession.lasts lasting_identity hfirst rfl (Nat.zero_le n) hn
    exact hlasts
  rw [hsame u hu, hsame v hv]

theorem Sound.attempted_once (hw : Sound w) : AttemptedOnce w where
  identity _ hu _ hv := hw.identity_eq hu hv
  claimed := hw.claims
  distinct := List.pairwise_map.mpr hw.distinct
  once _ hx _ hy hkind hpush := hw.claimed_once hx hy hkind hpush
  pushed _ hx _ hy hpush hother hcreate := hw.pushed_before hx hy hpush hother hcreate
  merged _ hx _ hy hmerge :=
    ⟨hw.not_closed hx hy hmerge, fun hdelete => hw.merged_before hx hy hmerge (.inr hdelete)⟩
  complete _ hx _ _ hv hcomplete := hw.not_complete hx hv hcomplete

theorem mutations_attempted_once (hr : ((system task).machine Starts).Run h p) :
    AttemptedOnce p.world :=
  (sound_of_run hr).attempted_once

open Handover in
theorem mutations_attempted_once_handover :
    let w := (played turns).2.world
    w.issued.map (·.mutation.kind) = [.delete, .merge, .create, .push] ∧ AttemptedOnce w :=
  ⟨played_turns.1.1, mutations_attempted_once (run_played turns)⟩

/-! Writes. -/

/-- A write takes effect at most once, and replaces nothing but the head that was pushed last before
its version. -/
structure ReplacesLast (w : World) : Prop where
  landed : (w.written.map (·.request)).Subperm w.issued
  replaced : ∀ x ∈ w.written,
    x.replaced = lastPushed (w.versions.take (x.request.revision - 1)) ∧
      ∃ head, x.request.mutation.ref = some (x.replaced, head)

theorem Sound.replaces_last (hw : Sound w) : ReplacesLast w := by
  have hlanded : (w.written.map (·.request)).Subperm w.issued :=
    (List.sublist_append_right _ _).subperm.trans hw.landed
  refine ⟨hlanded, fun x hx => ?_⟩
  obtain ⟨head, href⟩ := hw.leased x hx
  have hissued : x.request ∈ w.issued := hlanded.subset (List.mem_map_of_mem hx)
  exact ⟨hw.leased_last hissued href, head, href⟩

theorem writes_replace_last_pushed (hr : ((system task).machine Starts).Run h p) :
    ReplacesLast p.world :=
  (sound_of_run hr).replaces_last

open Handover in
theorem writes_replace_last_pushed_handover :
    let w := (played turns).2.world
    (w.written.map (·.replaced) = [some head, none] ∧ w.remote = none) ∧ ReplacesLast w :=
  ⟨played_turns.1.2, writes_replace_last_pushed (run_played turns)⟩

/-! The branch. -/

/-- What the ledger says of the branch is so. -/
structure AsRecorded (w : World) : Prop where
  unclaimed : w.versions = [] → w.remote = none
  /-- The branch has the confirmed head, or that of the pending push, or was deleted. -/
  named : ∀ c, w.versions.getLast? = some c → w.remote = c.pushedHead ∨
    c.pushIntent ≠ none ∧ w.remote = c.pushIntent ∨
    c.cleanup.deleteAttempted = true ∧ w.remote = none
  /-- A push that is not pending any more took effect. -/
  confirmed : ∀ n new head, w.versions[n]? = some new → new.pushIntent = some head →
    (∀ old, before w.versions n = some old → old.pushIntent = none) →
    ∀ k c, n ≤ k → w.versions[k]? = some c → c.pushIntent ≠ some head →
    ∃ x ∈ w.written, x.request.revision = n + 1 ∧
      x.request.mutation.ref = some (new.pushedHead, some head)
  complete : ∀ c ∈ w.versions, c.cleanup.complete = true → c.pushIntent = none → w.remote = none

/-- What took effect of a version that claims a push is this push. -/
theorem Sound.ref_of_written {x : Write} {head : String} (hw : Sound w) (hx : x ∈ w.written)
    (hrevision : x.request.revision = n + 1) (hnew : w.versions[n]? = some new)
    (hintent : new.pushIntent = some head) :
    x.request.mutation.ref = some (new.pushedHead, some head) := by
  obtain ⟨head', href⟩ := hw.leased x hx
  have hissued : x.request ∈ w.issued :=
    hw.landed.subset (List.mem_append_right _ (List.mem_map_of_mem hx))
  obtain ⟨m, c, hclaims⟩ := hw.claims x.request hissued
  obtain rfl : m = n := by
    have hsame := hclaims.revision
    omega
  obtain rfl : c = new := Option.some.inj (hclaims.version.symm.trans hnew)
  have hclaimed := hclaims.claimed
  cases hmutation : x.request.mutation with
  | push lease pushed =>
    rw [hmutation] at hclaimed
    obtain ⟨hpushed, hlease, -⟩ := hclaimed
    rw [hintent] at hpushed
    rw [← Option.some.inj hpushed, ← hlease]
    rfl
  | delete lease =>
    rw [hmutation] at hclaimed
    obtain ⟨-, -, hnone, -⟩ := hclaimed
    rw [hintent] at hnone
    cases hnone
  | _ =>
    rw [hmutation] at href
    cases href

theorem Sound.as_recorded (hw : Sound w) (hforeign : w.foreign = false) : AsRecorded w := by
  have ha : Alone w := hw.alone hforeign
  constructor
  case unclaimed => exact fun hnone => ha.unclaimed (by rw [hnone]; rfl)
  case named => exact ha.named
  case confirmed =>
    intro n new head hnew hintent hbefore k c hle hc hother
    by_contra hno
    have hunwritten : w.Unwritten n head := by
      refine ⟨⟨new, hnew, hintent, hbefore⟩, fun x hx hrevision => ?_⟩
      exact hno ⟨x, hx, hrevision, hw.ref_of_written hx hrevision hnew hintent⟩
    exact hother ((ha.pending n head hunwritten).2 k c hle hc)
  case complete =>
    intro c hc hcomplete hpush
    obtain ⟨n, hn⟩ := List.mem_iff_getElem?.mp hc
    have hlt : n < w.versions.length := (List.getElem?_eq_some_iff.mp hn).1
    obtain ⟨last, hlast⟩ : ∃ last, w.versions[w.versions.length - 1]? = some last :=
      exists_version (by omega)
    have hle : n ≤ w.versions.length - 1 := by omega
    have hsame := hw.succession.lasts (lasting_complete hcomplete) hn rfl hle hlast
    have hlatest : w.versions.getLast? = some c := by
      rw [List.getLast?_eq_getElem?, hlast, hsame]
    exact ha.complete c hlatest hcomplete hpush

/-- As long as nobody else changed it, the branch is as the ledger says, and is gone once the
cleanup is complete. -/
theorem branch_as_recorded (hr : ((system task).machine Starts).Run h p)
    (hforeign : p.world.foreign = false) : AsRecorded p.world :=
  (sound_of_run hr).as_recorded hforeign

open Handover in
theorem branch_as_recorded_handover :
    let w := (played turns).2.world
    (w.foreign = false ∧ w.versions.length = 8 ∧
      (w.versions.getLast?.map (·.cleanup.complete)) = some true) ∧ AsRecorded w :=
  ⟨played_turns.2, branch_as_recorded (run_played turns) played_turns.2.1⟩

end Agend.Github
