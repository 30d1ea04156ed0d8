import Agend.Github.Sound

/-! Each routine of a worker does its duty at each call, and goes on from a version that was
saved. -/
namespace Agend.Github

open Library Program

variable {w w' : World} {i n : Nat} {c : Call} {x : Request} {old new : GithubChange}
  {record : VersionedGithubChange} {task repo head : String} {pull : Pull}

def pact : Pact interface where
  safe := Sound
  rely := Rely
  refl _ _ := .refl
  trans _ _ _ _ := Rely.trans
  assumes _ _ _ := True
  duty i w c _ := Duty i w c

def scope (i : Nat) : Scope pact i where
  stays w w' := w.saves <+: w'.saves
  trans _ _ _ := List.IsPrefix.trans
  rely _ _ := Rely.saves

/-! One call. -/

/-- The call was answered with `x` in a world that the others left, and they left `w'` since. -/
def Called (i : Nat) (w : World) (c : Call) (x : c.Reply) (w' : World) : Prop :=
  ∃ found a left, Rely i w found ∧ Sound found ∧ found.perform a c = (.ok x, left) ∧
    Rely i left w'

/-- The rule for one call: it is due whatever the others do first. -/
theorem call_leaves {Q : c.Reply → World → Prop}
    (hd : ∀ w', Rely i w w' → Sound w' → Duty i w' c)
    (ok : ∀ x w', Sound w' → Called i w c x w' → Q x w') : Leaves (scope i) (call c) Q w := by
  refine Runs.ask fun w₁ hr₁ hw₁ a _ => ?_
  have hduty : Duty i w₁ c := hd w₁ hr₁ hw₁
  have houtside : Sound (w₁.outside a.moves) ∧ Rely i w₁ (w₁.outside a.moves) := hw₁.outside
  -- What another worker may rely on holds for this one too.
  have hsaves : w₁.saves <+: (w₁.exec a c).2.saves :=
    ((hw₁.exec (a := a) hduty).2 (i + 1) (by omega)).saves
  refine ⟨hduty, fun w₂ hr₂ hw₂ => ?_⟩
  change After (fun x w' => w.saves <+: w'.saves ∧ Q x w') (fun _ w' => w.saves <+: w'.saves)
    (w₁.exec a c).1 w₂
  change Rely i (w₁.exec a c).2 w₂ at hr₂
  have hstays : w.saves <+: w₂.saves := hr₁.saves.trans (hsaves.trans hr₂.saves)
  rcases exec_cases (w := w₁) (a := a) (c := c) with heq | ⟨reason, hreason, -⟩
  · rw [heq] at hr₂ ⊢
    cases hresult : ((w₁.outside a.moves).perform a c).1 with
    | error reason => exact hstays
    | ok x =>
      have hcalled : Called i w c x w₂ :=
        ⟨_, a, _, hr₁.trans houtside.2, houtside.1, Prod.ext hresult rfl, hr₂⟩
      exact ⟨hstays, ok x w₂ hw₂ hcalled⟩
  · rw [hreason]
    exact hstays

/-- What may be called at any time, and changes nothing. -/
def Call.quiet : Call → Bool
  | .save _ _ _ | .issue _ => false
  | _ => true

theorem quiet_leaves (hc : c.quiet = true) : Leaves (scope i) (call c) (fun _ _ => True) w := by
  refine call_leaves (fun w' _ _ => ?_) fun _ _ _ _ => trivial
  cases c <;> first | exact trivial | cases hc

theorem quietThen {α : Type} {f : c.Reply → Routine α} {T : α → World → Prop}
    (hc : c.quiet = true)
    (ok : ∀ x w', Sound w' → w.saves <+: w'.saves → Leaves (scope i) (f x) T w') :
    Leaves (scope i) (call c >>= f) T w :=
  (quiet_leaves hc).bind fun x w' hw' hs' _ => ok x w' hw' hs'

/-! Versions that a worker knows. -/

/-- The record was read or saved as one of the versions. -/
def World.Holds (w : World) (record : VersionedGithubChange) : Prop :=
  ∃ n, record.revision = n + 1 ∧ w.versions[n]? = some record.change

theorem World.Holds.stays (h : w.Holds record) (hs : w.saves <+: w'.saves) : w'.Holds record := by
  obtain ⟨n, hrevision, hversion⟩ := h
  exact ⟨n, hrevision, getElem?_mono (hs.map (·.2)) hversion⟩

theorem World.Holds.last (h : w.Holds record) (hlength : w.saves.length = record.revision) :
    w.versions.getLast? = some record.change := by
  obtain ⟨n, hrevision, hversion⟩ := h
  rw [List.getLast?_eq_getElem?, length_versions, hlength, hrevision, Nat.add_sub_cancel]
  exact hversion

/-- The branch was seen like this, and while nobody else changes it and the record is the last, that
remains so: a pending push is still there, or nothing is. -/
structure World.Read (w : World) (record : VersionedGithubChange) (remote : Option String) :
    Prop where
  holds : w.Holds record
  seen : w.foreign = false → w.saves.length = record.revision → ∀ head,
    record.change.pushIntent = some head → remote = some head → w.remote = some head
  absent : w.foreign = false → w.saves.length = record.revision →
    record.change.pushIntent = none → remote = none → w.remote = none

theorem World.Read.rely {remote : Option String} (h : w.Read record remote) (hr : Rely i w w') :
    w'.Read record remote := by
  have hback : w'.foreign = false → w'.saves.length = record.revision →
      w.foreign = false ∧ w.saves.length = record.revision ∧ Remains w w' := by
    intro hf hlength
    obtain ⟨n, hrevision, hversion⟩ := h.holds
    have hlt : n < w.versions.length := (List.getElem?_eq_some_iff.mp hversion).1
    rw [length_versions] at hlt
    have hle := hr.saves.length_le
    have hsame : w'.saves = w.saves := (hr.saves.eq_of_length (by omega)).symm
    exact ⟨hr.foreign hf, by omega, hr.remains hf hsame⟩
  constructor
  case holds => exact h.holds.stays hr.saves
  case seen =>
    intro hf hlength head hintent hremote
    obtain ⟨hf', hlength', hremains⟩ := hback hf hlength
    exact hremains.seen record.change (h.holds.last hlength') head hintent
      (h.seen hf' hlength' head hintent hremote)
  case absent =>
    intro hf hlength hintent hremote
    obtain ⟨hf', hlength', hremains⟩ := hback hf hlength
    exact hremains.absent record.change (h.holds.last hlength') hintent
      (h.absent hf' hlength' hintent hremote)

/-- A pending push that was seen may be confirmed. -/
theorem World.Read.reconciled {remote : Option String} (h : w.Read record remote)
    (hf : w.foreign = false) (hlength : w.saves.length = record.revision)
    (hremote : remote = record.change.pushIntent) :
    Steps w record.change record.change.reconciled := by
  refine Steps.of_cleanup rfl ?_ ?_
  · exact fun head hold _ => h.seen hf hlength head hold (hremote.trans hold)
  · exact fun _ _ hnew => by cases hnew

/-- The worker saved this version after `old`, and has not asked for anything since. -/
structure World.Saved (w : World) (i n : Nat) (old new : GithubChange) : Prop where
  saved : w.saves[n]? = some (i, new)
  previous : before w.versions n = some old
  fresh : ∀ x ∈ w.issued, x.process = i → x.revision ≠ n + 1

theorem World.Saved.rely (h : w.Saved i n old new) (hr : Rely i w w') : w'.Saved i n old new where
  saved := getElem?_mono hr.saves h.saved
  previous := by
    have hlt : n < w.saves.length := (List.getElem?_eq_some_iff.mp h.saved).1
    rw [before_mono hr.saves (Nat.le_of_lt hlt)]
    exact h.previous
  fresh x hx hi := h.fresh x ((hr.issued x hi).mp hx) hi

theorem World.Saved.holds (h : w.Saved i n old new) : w.Holds ⟨n + 1, new⟩ :=
  ⟨n, rfl, versions_of_saves h.saved⟩

theorem load_leaves : Leaves (scope i) (call .load)
    (fun (row : Option VersionedGithubChange) w' => ∀ record, row = some record → w'.Holds record)
    w := by
  refine call_leaves (fun _ _ _ => trivial) fun row w' _ hcalled => ?_
  obtain ⟨found, a, left, -, -, hperform, hr⟩ := hcalled
  cases hperform
  intro record hrow
  obtain ⟨c, hlast, rfl⟩ := Option.map_eq_some_iff.mp hrow
  rw [List.getLast?_eq_getElem?, length_versions] at hlast
  have hlt : found.saves.length - 1 < found.versions.length :=
    (List.getElem?_eq_some_iff.mp hlast).1
  rw [length_versions] at hlt
  have hholds : found.Holds ⟨found.saves.length, c⟩ :=
    ⟨found.saves.length - 1, by dsimp only; omega, hlast⟩
  exact hholds.stays hr.saves

theorem remoteHead_leaves (hold : w.Holds record) : Leaves (scope i) (call .remoteHead)
    (fun (remote : Option String) w' => w'.Read record remote) w := by
  refine call_leaves (fun _ _ _ => trivial) fun remote w' _ hcalled => ?_
  obtain ⟨found, a, left, hr, -, hperform, hr'⟩ := hcalled
  cases hperform
  have hread : found.Read record found.remote :=
    ⟨hold.stays hr.saves, fun _ _ _ _ h => h, fun _ _ _ h => h⟩
  exact hread.rely hr'

/-- The version that follows the one the worker knows; nobody else's can have come between. -/
theorem saveChange_leaves {refused : String} (hold : w.Holds record)
    (hsteps : ∀ w', Rely i w w' → w'.foreign = false → w'.saves.length = record.revision →
      Steps w' record.change new) :
    Leaves (scope i) (saveChange i refused { record with change := new })
      (fun record' w' => record' = ⟨record.revision + 1, new⟩ ∧
        w'.Saved i record.revision record.change new) w := by
  have hsave : Leaves (scope i) (call (.save i (some record.revision) new))
      (fun (saved : Bool) w' => saved = true → w'.Saved i record.revision record.change new) w := by
    refine call_leaves (fun w' hr _ => ⟨rfl, fun hf old hlast hexpected => ?_⟩)
      fun saved w' _ hcalled hsaved => ?_
    · have hlength : w'.saves.length = record.revision := (Option.some.inj hexpected).symm
      have hsame := (hold.stays hr.saves).last hlength
      obtain rfl : old = record.change := Option.some.inj (hlast.symm.trans hsame)
      exact hsteps w' hr hf hlength
    subst hsaved
    obtain ⟨found, a, left, hr, hfound, hperform, hr'⟩ := hcalled
    change found.saveGithubChange i (some record.revision) new = (.ok true, left) at hperform
    rcases saveGithubChange_cases found i (some record.revision) new with
      ⟨-, hno⟩ | ⟨hrevision, -, heq⟩
    · exact absurd (congrArg Prod.fst hperform) hno
    · rw [heq] at hperform
      cases hperform
      rw [map_revision_ledger, Option.map_eq_some_iff] at hrevision
      obtain ⟨last, -, hlength⟩ := hrevision
      obtain ⟨n, hn, hversion⟩ := hold.stays hr.saves
      refine World.Saved.rely ⟨?_, ?_, fun x hx _ => ?_⟩ hr'
      · rw [← hlength]
        exact List.getElem?_concat_length
      · have hlt : n < found.versions.length := (List.getElem?_eq_some_iff.mp hversion).1
        rw [hn, before_succ, versions_saving, List.getElem?_append_left hlt]
        exact hversion
      · have hle := hfound.revision_le (x := x) hx
        omega
  refine hsave.bind fun saved w₁ _ _ hsaved => ?_
  refine Leaves.checkThen fun hok => ?_
  exact Leaves.pure fun w' hr _ => ⟨rfl, (hsaved hok).rely hr⟩

/-- A version that says nothing new of the branch. -/
theorem sameChange_leaves {refused : String} (hold : w.Holds record)
    (hintent : new.pushIntent = record.change.pushIntent)
    (hcomplete : new.cleanup.complete = record.change.cleanup.complete)
    (hdelete : new.cleanup.deleteAttempted = record.change.cleanup.deleteAttempted) :
    Leaves (scope i) (saveChange i refused { record with change := new })
      (fun record' w' => record' = ⟨record.revision + 1, new⟩ ∧
        w'.Saved i record.revision record.change new) w :=
  saveChange_leaves hold fun _ _ _ _ => .same hintent hcomplete hdelete

/-- What was claimed may be asked for, once. -/
theorem issue_leaves (hs : w.Saved i n old new) (hi : x.process = i) (hn : x.revision = n + 1)
    (hc : Claimed (some old) new x.mutation) :
    Leaves (scope i) (attempt (call (.issue x))) (fun _ _ => True) w := by
  have hissue : Leaves (scope i) (call (.issue x)) (fun _ _ => True) w := by
    refine call_leaves (fun w' hr hw' => ?_) fun _ _ _ _ => trivial
    have hs' := hs.rely hr
    have hclaims : w'.Claims x n new := ⟨hn, by rw [hi]; exact hs'.saved, by
      rw [hs'.previous]; exact hc⟩
    refine ⟨hi, ⟨n, new, hclaims⟩, fun y hy heq => ?_⟩
    -- A request of this revision would be by the worker that saved it.
    obtain ⟨m, c, hother⟩ := hw'.claims y hy
    obtain rfl : m = n := by
      have := hother.revision
      omega
    have hworker : y.process = i :=
      (Prod.mk.inj (Option.some.inj (hother.saved.symm.trans hs'.saved))).1
    exact hs'.fresh y hy hworker (heq.symm.trans hn)
  exact hissue.attempt.mono fun _ _ _ _ _ => trivial

/-! Reading. -/

theorem ownedPull_leaves {change : GithubChange} :
    Leaves (scope i) (ownedPull change pull) (fun _ _ => True) w :=
  Leaves.check

theorem adopt_leaves {change : GithubChange} {list : List Nat} {found : Option Pull} :
    Leaves (scope i) (adopt change list found) (fun _ _ => True) w := by
  induction list generalizing found w with
  | nil => exact Leaves.pure fun _ _ _ => trivial
  | cons number rest ih =>
    refine Leaves.checkThen fun _ => ?_
    refine quietThen rfl fun pull w₁ _ _ => ?_
    refine ownedPull_leaves.bind fun _ w₂ _ _ _ => ?_
    exact Leaves.checkThen fun _ => ih

theorem findPages_leaves {change : GithubChange} {pages page : Nat} {found : Option Pull} :
    Leaves (scope i) (findPages change pages page found) (fun _ _ => True) w := by
  induction pages generalizing page found w with
  | zero => exact fun w' hr _ => hr.saves
  | succ pages ih =>
    refine quietThen rfl fun list w₁ _ _ => ?_
    refine adopt_leaves.bind fun found w₂ _ _ _ => ?_
    split
    · exact Leaves.pure fun _ _ _ => trivial
    · exact ih

theorem findOwnedPull_leaves {change : GithubChange} :
    Leaves (scope i) (findOwnedPull change) (fun _ _ => True) w :=
  findPages_leaves

theorem receipt_leaves {approved : String} :
    Leaves (scope i) (receipt pull approved) (fun _ _ => True) w := by
  refine Leaves.checkThen fun _ => Leaves.checkThen fun _ => Leaves.orRaiseThen fun sha _ => ?_
  exact quietThen rfl fun _ _ _ _ => Leaves.check

/-! Pushing. -/

theorem pushTo_leaves (hold : w.Holds record) : Leaves (scope i) (pushTo i record head)
    (fun record' w' => w'.Holds record') w := by
  refine Leaves.checkThen fun hbegun => ?_
  simp only [Bool.and_eq_true, decide_eq_true_eq, Option.isNone_iff_eq_none] at hbegun
  obtain ⟨hcleanup, hmerge⟩ := hbegun
  refine quietThen rfl fun _ w₁ _ hs₁ => Leaves.checkThen fun _ => ?_
  refine quietThen rfl fun commit w₂ _ hs₂ => Leaves.checkThen fun _ => ?_
  refine (remoteHead_leaves (hold.stays (hs₁.trans hs₂))).bind
    fun (remote : Option String) w₃ _ _ hread => ?_
  split
  · rename_i intent hintent
    refine Leaves.checkThen fun hremote => ?_
    have hremote : remote = record.change.pushIntent :=
      (of_decide_eq_true hremote).trans hintent.symm
    refine (saveChange_leaves hread.holds fun w' hr hf hlength =>
      (hread.rely hr).reconciled hf hlength hremote).bind fun record' w₄ _ _ hsaved => ?_
    obtain ⟨rfl, hsaved⟩ := hsaved
    refine Leaves.checkThen fun _ => ?_
    exact Leaves.pure fun w' hr _ => hsaved.holds.stays hr.saves
  · rename_i hintent
    refine Leaves.checkThen fun hremote => ?_
    have hremote : remote = record.change.pushedHead := of_decide_eq_true hremote
    split
    · exact Leaves.pure fun w' hr _ => hread.holds.stays hr.saves
    · rename_i hnew
      have hother : record.change.pushedHead ≠ some head := fun hsame => hnew (hremote.trans hsame)
      refine (saveChange_leaves hread.holds fun _ _ _ _ => .of_push hcleanup hother).bind
        fun record' w₄ _ _ hsaved => ?_
      obtain ⟨rfl, hsaved⟩ := hsaved
      have hclaimed : Claimed (some record.change) { record.change with pushIntent := some head }
          (.push record.change.pushedHead head) :=
        ⟨rfl, rfl, hcleanup, hmerge, fun old hprevious => Option.some.inj hprevious ▸ hintent⟩
      refine (issue_leaves hsaved rfl rfl hclaimed).bind fun _ w₅ _ hs₅ _ => ?_
      refine (remoteHead_leaves (hsaved.holds.stays hs₅)).bind
        fun (seen : Option String) w₆ _ _ hread => ?_
      refine Leaves.checkThen fun hseen => ?_
      have hseen : seen = some head := of_decide_eq_true hseen
      refine (saveChange_leaves hread.holds fun w' hr hf hlength =>
        (hread.rely hr).reconciled hf hlength hseen).mono fun record' w' _ _ hconfirmed => ?_
      obtain ⟨rfl, hconfirmed⟩ := hconfirmed
      exact hconfirmed.holds

theorem pushOwned_leaves (hold : w.Holds record) : Leaves (scope i) (pushOwned i record head)
    (fun record' w' => w'.Holds record') w :=
  quietThen rfl fun _ _ _ hs => Leaves.checkThen fun _ => pushTo_leaves (hold.stays hs)

/-! Submitting. -/

theorem ensurePull_leaves {title body : String} (hold : w.Holds record) :
    Leaves (scope i) (ensurePull i record title body) (fun found w' => w'.Holds found.1) w := by
  unfold ensurePull
  split
  · refine quietThen rfl fun pull w₁ _ hs₁ => ?_
    refine ownedPull_leaves.bind fun _ w₂ _ hs₂ _ => ?_
    exact Leaves.pure fun w' hr _ => hold.stays (hs₁.trans (hs₂.trans hr.saves))
  · refine findOwnedPull_leaves.bind fun found w₁ _ hs₁ _ => ?_
    have hold₁ : w₁.Holds record := hold.stays hs₁
    cases found with
    | some pull =>
      exact Leaves.checkThen fun _ => Leaves.pure fun w' hr _ => hold₁.stays hr.saves
    | none =>
      refine Leaves.checkThen fun hnew => ?_
      have hnew : record.change.createAttempted = false := by simpa using hnew
      refine (sameChange_leaves hold₁ (by rfl) (by rfl) (by rfl)).bind
        fun record' w₂ _ _ hsaved => ?_
      obtain ⟨rfl, hsaved⟩ := hsaved
      refine (issue_leaves hsaved rfl rfl ?_).bind fun _ w₃ _ hs₃ _ => ?_
      · exact ⟨rfl, fun old hprevious => Option.some.inj hprevious ▸ hnew⟩
      refine findOwnedPull_leaves.bind fun found w₄ _ hs₄ _ => ?_
      refine Leaves.orRaiseThen fun pull _ => ?_
      exact Leaves.pure fun w' hr _ => hsaved.holds.stays (hs₃.trans (hs₄.trans hr.saves))

theorem recordPull_leaves (hold : w.Holds record) :
    Leaves (scope i) (recordPull i record pull) (fun _ _ => True) w := by
  unfold recordPull
  split
  · exact Leaves.pure fun _ _ _ => trivial
  · exact (sameChange_leaves hold (by rfl) (by rfl) (by rfl)).discard

theorem submitPull_leaves {repository title body : String} (hold : w.Holds record) :
    Leaves (scope i) (submitPull i repository record title body) (fun _ _ => True) w := by
  refine Leaves.checkThen fun _ => ?_
  refine quietThen rfl fun id w₁ _ hs₁ => Leaves.checkThen fun _ => ?_
  refine (ensurePull_leaves (hold.stays hs₁)).bind fun found w₂ _ _ hfound => ?_
  refine (recordPull_leaves hfound).bind fun _ w₃ _ _ _ => ?_
  exact Leaves.checkThen fun _ => Leaves.pure fun _ _ _ => trivial

theorem owned_leaves {branch : String} :
    Leaves (scope i) (owned task repo branch) (fun record w' => w'.Holds record) w := by
  refine Leaves.checkThen fun _ => ?_
  refine load_leaves.bind fun row w₁ _ _ hrow => ?_
  refine Leaves.orRaiseThen fun record hrecord => Leaves.checkThen fun _ => ?_
  exact Leaves.pure fun w' hr _ => (hrow record hrecord).stays hr.saves

theorem claimRow_leaves {change : String → GithubChange} {row : Option VersionedGithubChange} :
    Leaves (scope i) (claimRow i change row) (fun _ _ => True) w := by
  cases row with
  | some record => exact Leaves.pure fun _ _ _ => trivial
  | none =>
    refine quietThen rfl fun nonce w₁ _ _ => ?_
    have hsave : Leaves (scope i) (call (.save i none (change nonce))) (fun _ _ => True) w₁ :=
      call_leaves (fun _ _ _ => ⟨rfl, fun _ _ _ h => by cases h⟩) fun _ _ _ _ => trivial
    exact hsave.discard

theorem submit_leaves {submission : Submission} :
    Leaves (scope i) (submit i task repo submission) (fun _ _ => True) w := by
  refine Leaves.checkThen fun _ => ?_
  refine quietThen rfl fun repository w₁ _ _ => quietThen rfl fun id w₂ _ _ => ?_
  refine load_leaves.bind fun row w₃ _ _ _ => claimRow_leaves.bind fun _ w₄ _ _ _ => ?_
  refine owned_leaves.bind fun record w₅ _ _ hold => Leaves.checkThen fun _ => ?_
  refine quietThen rfl fun head w₆ _ hs₆ => ?_
  refine (pushOwned_leaves (hold.stays hs₆)).bind fun record' w₇ _ _ hold' => ?_
  exact submitPull_leaves hold'

/-! Merging. -/

theorem mergeOutcome_leaves {change : GithubChange} {approved : String}
    {written : Except String Response} :
    Leaves (scope i) (mergeOutcome change approved pull written) (fun _ _ => True) w := by
  refine ownedPull_leaves.bind fun _ w₁ _ _ _ => ?_
  split
  · exact Leaves.pure fun _ _ _ => trivial
  · split
    · refine Leaves.checkThen fun _ => receipt_leaves.bind fun _ _ _ _ _ => ?_
      exact Leaves.pure fun _ _ _ => trivial
    · exact fun w' hr _ => hr.saves

theorem mergeWrite_leaves {number : Nat} {approved : String} (hold : w.Holds record)
    (hnumber : record.change.pullNumber = some number) (hnew : record.change.mergeHead = none) :
    Leaves (scope i) (mergeWrite i number record approved) (fun _ _ => True) w := by
  refine (sameChange_leaves hold (by rfl) (by rfl) (by rfl)).bind
    fun record' w₁ _ _ hsaved => ?_
  obtain ⟨rfl, hsaved⟩ := hsaved
  refine (issue_leaves hsaved rfl rfl ?_).bind fun written w₂ _ _ _ => ?_
  · exact ⟨rfl, hnumber, fun old hprevious => Option.some.inj hprevious ▸ hnew⟩
  exact quietThen rfl fun _ _ _ _ => mergeOutcome_leaves

theorem mergeChecked_leaves {number : Nat} {approved : String} (hold : w.Holds record)
    (hnumber : record.change.pullNumber = some number) (hnew : record.change.mergeHead = none) :
    Leaves (scope i) (mergeChecked i number record approved) (fun _ _ => True) w := by
  refine quietThen rfl fun before w₁ _ hs₁ => ownedPull_leaves.bind fun _ w₂ _ hs₂ _ => ?_
  split
  · exact Leaves.pure fun _ _ _ => trivial
  · split
    · exact receipt_leaves.bind fun _ _ _ _ _ => Leaves.pure fun _ _ _ => trivial
    · refine Leaves.checkThen fun _ => quietThen rfl fun _ w₃ _ hs₃ => ?_
      exact mergeWrite_leaves (hold.stays (hs₁.trans (hs₂.trans hs₃))) hnumber hnew

theorem mergeOwned_leaves {number : Nat} {approved : String} (hold : w.Holds record)
    (hnumber : record.change.pullNumber = some number) (hnew : record.change.mergeHead = none) :
    Leaves (scope i) (mergeOwned i number record approved) (fun _ _ => True) w := by
  refine Leaves.checkThen fun _ => quietThen rfl fun _ w₁ _ hs₁ => ?_
  exact Leaves.checkThen fun _ => mergeChecked_leaves (hold.stays hs₁) hnumber hnew

theorem mergePull_leaves {number : Nat} {expectedHead : String} (hold : w.Holds record)
    (hnumber : record.change.pullNumber = some number) :
    Leaves (scope i) (mergePull i number record expectedHead pull) (fun _ _ => True) w := by
  unfold mergePull
  split
  · exact Leaves.pure fun _ _ _ => trivial
  · split
    · exact receipt_leaves.bind fun _ _ _ _ _ => Leaves.pure fun _ _ _ => trivial
    · refine Leaves.checkThen fun _ => Leaves.checkThen fun hnew => ?_
      exact mergeOwned_leaves hold hnumber (Option.isNone_iff_eq_none.mp hnew)

theorem mergeIfHeadIs_leaves {branch expectedHead : String} :
    Leaves (scope i) (mergeIfHeadIs i task repo branch expectedHead) (fun _ _ => True) w := by
  refine owned_leaves.bind fun record w₁ _ _ hold => ?_
  refine Leaves.checkThen fun _ => Leaves.checkThen fun _ => ?_
  refine quietThen rfl fun _ w₂ _ hs₂ => Leaves.checkThen fun _ => ?_
  refine quietThen rfl fun _ w₃ _ hs₃ => Leaves.checkThen fun _ => ?_
  refine Leaves.orRaiseThen fun number hnumber => ?_
  refine quietThen rfl fun before w₄ _ hs₄ => ownedPull_leaves.bind fun _ w₅ _ hs₅ _ => ?_
  have hold₅ := hold.stays (hs₂.trans (hs₃.trans (hs₄.trans hs₅)))
  refine (mergePull_leaves hold₅ hnumber).bind fun result w₆ _ _ _ => ?_
  cases result with
  | merged => exact quiet_leaves rfl
  | headChanged actual => exact Leaves.pure fun _ _ _ => trivial

/-! Cleaning up. -/

theorem cleanupPull_leaves (hold : w.Holds record) :
    Leaves (scope i) (cleanupPull i record) (fun found w' => w'.Holds found.1) w := by
  unfold cleanupPull
  split
  · exact quietThen rfl fun _ _ _ hs => Leaves.pure fun w' hr _ => hold.stays (hs.trans hr.saves)
  · split
    · refine findOwnedPull_leaves.bind fun found w₁ _ hs₁ _ => ?_
      refine Leaves.orRaiseThen fun pull _ => ?_
      refine (sameChange_leaves (hold.stays hs₁) (by rfl) (by rfl) (by rfl)).bind
        fun record' w₂ _ _ hsaved => ?_
      obtain ⟨rfl, hsaved⟩ := hsaved
      exact Leaves.pure fun w' hr _ => hsaved.holds.stays hr.saves
    · exact Leaves.pure fun w' hr _ => hold.stays hr.saves

theorem closePull_leaves (hold : w.Holds record) (hmerge : record.change.mergeHead = none) :
    Leaves (scope i) (closePull i record pull) (fun record' w' => w'.Holds record') w := by
  refine Leaves.checkThen fun _ => Leaves.checkThen fun hnew => ?_
  have hnew : record.change.cleanup.closeAttempted = false := by simpa using hnew
  refine (sameChange_leaves hold (by rfl) (by rfl) (by rfl)).bind
    fun record' w₁ _ _ hsaved => ?_
  obtain ⟨rfl, hsaved⟩ := hsaved
  refine (issue_leaves hsaved rfl rfl ?_).bind fun _ w₂ _ hs₂ _ => ?_
  · exact ⟨rfl, hmerge, fun old hprevious => Option.some.inj hprevious ▸ hnew⟩
  refine quietThen rfl fun after w₃ _ hs₃ => ownedPull_leaves.bind fun _ w₄ _ hs₄ _ => ?_
  refine Leaves.checkThen fun _ => Leaves.pure fun w' hr _ => ?_
  exact hsaved.holds.stays (hs₂.trans (hs₃.trans (hs₄.trans hr.saves)))

theorem settlePull_leaves {merged : Bool} {found : Option Pull} (hold : w.Holds record) :
    Leaves (scope i) (settlePull i record merged found) (fun record' w' => w'.Holds record') w := by
  cases found with
  | none =>
    exact Leaves.checkThen fun _ => Leaves.pure fun w' hr _ => hold.stays hr.saves
  | some pull =>
    refine ownedPull_leaves.bind fun _ w₁ _ hs₁ _ => ?_
    have hold₁ : w₁.Holds record := hold.stays hs₁
    split
    · refine Leaves.orRaiseThen fun approved _ => receipt_leaves.bind fun _ w₂ _ hs₂ _ => ?_
      exact Leaves.pure fun w' hr _ => hold₁.stays (hs₂.trans hr.saves)
    · refine Leaves.checkThen fun _ => Leaves.checkThen fun hmerge => ?_
      split
      · exact Leaves.pure fun w' hr _ => hold₁.stays hr.saves
      · exact closePull_leaves hold₁ (Option.isNone_iff_eq_none.mp hmerge)

/-- After this no push is pending. -/
theorem reconcilePush_leaves (hread : w.Read record (some head)) :
    Leaves (scope i) (reconcilePush i record head)
      (fun record' w' => w'.Holds record' ∧ record'.change.pushIntent = none ∧
        record'.change.cleanup = record.change.cleanup) w := by
  unfold reconcilePush
  split
  · rename_i intent hintent
    refine Leaves.checkThen fun hsame => ?_
    have hremote : some head = record.change.pushIntent := by
      rw [hintent, of_decide_eq_true hsame]
    refine (saveChange_leaves hread.holds fun w' hr hf hlength =>
      (hread.rely hr).reconciled hf hlength hremote).mono fun record' w' _ _ hsaved => ?_
    obtain ⟨rfl, hsaved⟩ := hsaved
    exact ⟨hsaved.holds, rfl, rfl⟩
  · rename_i hintent
    exact Leaves.pure fun w' hr _ => ⟨hread.holds.stays hr.saves, hintent, rfl⟩

/-- After this the branch was seen to be absent. -/
theorem deleteBranch_leaves {remote : Option String} (hread : w.Read record remote) :
    Leaves (scope i) (deleteBranch i record remote) (fun record' w' => w'.Read record' none) w := by
  cases remote with
  | none => exact Leaves.pure fun w' hr _ => hread.rely hr
  | some head =>
    refine Leaves.checkThen fun hnew => ?_
    have hnew : record.change.cleanup.deleteAttempted = false := by simpa using hnew
    refine (reconcilePush_leaves hread).bind fun record' w₁ _ _ hreconciled => ?_
    obtain ⟨hold', hintent, hcleanup⟩ := hreconciled
    refine Leaves.checkThen fun hpushed => ?_
    refine (saveChange_leaves hold' fun _ _ _ _ => .of_delete hintent).bind
      fun record'' w₂ _ _ hsaved => ?_
    obtain ⟨rfl, hsaved⟩ := hsaved
    refine (issue_leaves hsaved rfl rfl ?_).bind fun _ w₃ _ hs₃ _ => ?_
    · refine ⟨rfl, of_decide_eq_true hpushed, hintent, fun old hprevious => ?_⟩
      rw [← Option.some.inj hprevious, hcleanup]
      exact hnew
    refine (remoteHead_leaves (hsaved.holds.stays hs₃)).bind
      fun (remote : Option String) w₄ _ _ hread' => ?_
    refine Leaves.checkThen fun habsent => ?_
    obtain rfl : remote = none := Option.isNone_iff_eq_none.mp habsent
    exact Leaves.pure fun w' hr _ => hread'.rely hr

theorem cleanupRow_leaves {merged : Bool} (hold : w.Holds record) :
    Leaves (scope i) (cleanupRow i repo merged record) (fun _ _ => True) w := by
  refine Leaves.checkThen fun _ => ?_
  refine quietThen rfl fun _ w₁ _ hs₁ => Leaves.checkThen fun _ => ?_
  refine quietThen rfl fun _ w₂ _ hs₂ => Leaves.checkThen fun _ => ?_
  refine quietThen rfl fun _ w₃ _ hs₃ => Leaves.checkThen fun _ => ?_
  have hold₃ := hold.stays (hs₁.trans (hs₂.trans hs₃))
  refine (cleanupPull_leaves hold₃).bind fun found w₄ _ _ hold₄ => ?_
  refine (settlePull_leaves hold₄).bind fun settled w₅ _ _ hold₅ => ?_
  refine (remoteHead_leaves hold₅).bind
    fun (remote : Option String) w₆ _ _ hread => ?_
  refine (deleteBranch_leaves hread).bind fun record' w₇ _ _ habsent => ?_
  refine (saveChange_leaves habsent.holds fun w' hr hf hlength => ?_).discard
  exact .of_complete fun hintent => (habsent.rely hr).absent hf hlength hintent rfl

theorem cleanup_leaves {merged : Bool} :
    Leaves (scope i) (cleanup i repo merged) (fun _ _ => True) w := by
  refine load_leaves.bind fun row w₁ _ _ hrow => ?_
  cases row with
  | none => exact Leaves.pure fun _ _ _ => trivial
  | some record =>
    dsimp only
    split
    · exact Leaves.pure fun _ _ _ => trivial
    · exact cleanupRow_leaves (hrow record rfl)

theorem main_leaves {work : Task} :
    Leaves (scope i) (main task i work) (fun _ _ => True) w := by
  cases work with
  | submit repo submission => exact submit_leaves.discard
  | merge repo branch expectedHead => exact mergeIfHeadIs_leaves
  | cleanup repo merged => exact cleanup_leaves

end Agend.Github
