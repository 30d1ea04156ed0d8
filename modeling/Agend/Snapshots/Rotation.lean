import Mathlib.Data.Char
import Mathlib.Data.List.Lex
import Agend.Library.Effect
import Agend.Library.KeySort
import Agend.Snapshots.Names

/-! Writing snapshots to `backups/` and deleting the oldest of them. -/
namespace Agend.Snapshots

open Library

def KEEP : Nat := 7

/-- The name of an entry; not every one is UTF-8. -/
inductive FileName
  | text (name : Name)
  | bytes (raw : List UInt8)
  deriving DecidableEq

structure Entry where
  name : FileName
  isFile : Bool
  deriving DecidableEq

/-- `backups/`. What was renamed to a snapshot name so far is not there to be read: `written` keeps
it, in order. -/
structure Backups where
  entries : List Entry
  written : List Name

namespace Backups

/-- The names of files that `keep` accepts, as the directory lists them. -/
def listed (keep : Name → Bool) (b : Backups) : List Name :=
  b.entries.filterMap fun entry =>
    match entry.name with
    | .text name => if entry.isFile && keep name then some name else none
    | .bytes _ => none

def names (keep : Name → Bool) (b : Backups) : List Name := sortByKey id (b.listed keep)

def has (name : Name) (b : Backups) : Bool := b.entries.any fun entry => entry.name = .text name

def remove (name : Name) (b : Backups) : Backups :=
  { b with entries := b.entries.filter fun entry => entry.name ≠ .text name }

/-- A file of that name, in the place of what had it. -/
def create (name : Name) (b : Backups) : Backups :=
  { b.remove name with entries := (b.remove name).entries ++ [⟨.text name, true⟩] }

end Backups

inductive StoreError
  | io
  | sqlite
  | invalid
  | snapshotCheck (text : Name)

/-- How `VACUUM INTO` and the check of its copy end. One that fails may leave the copy and its
sidecars. -/
inductive Vacuum
  | copied
  | failed (left : List Name)
  | damaged (check : Name)

/-- What the file system and the database answer during one call. -/
structure Answers where
  opened : Bool
  listed : Bool
  removes : Name → Bool
  renames : Bool
  utf8Home : Bool
  empty : Option Bool
  vacuum : Vacuum

structure SnapshotReport where
  name : Name
  taken : Bool
  empty : Bool
  rotatedOut : List Name
  staleTmpRemoved : List Name
  kept : List Name

open Effect

abbrev Run (α : Type) := Effect Backups StoreError α

def removeFile (a : Answers) (name : Name) : Run Unit := do
  check (a.removes name) .io
  modify (Backups.remove name)

def write (a : Answers) (name : Name) : Run Unit := do
  let tmp := tmpName name
  let b ← read
  doIf (b.has tmp) (removeFile a tmp)
  check a.utf8Home .invalid
  match a.vacuum with
  | .failed left =>
    forEach (fun file => modify (Backups.create file))
      ((tmp :: TMP_SIDECARS.map (tmp ++ ·)).filter left.contains)
    fail .sqlite
  | .damaged text => do
    modify (Backups.create tmp)
    removeFile a tmp
    fail (.snapshotCheck (name ++ ": ".toList ++ text))
  | .copied => do
    modify (Backups.create tmp)
    check a.renames .io
    modify fun b => { (b.remove tmp).create name with written := b.written ++ [name] }

def rotate (a : Answers) : Run (List Name × List Name) := do
  check a.listed .io
  let b ← read
  let kept := b.names isSnapshotName
  let excess := kept.length - KEEP
  let removed := kept.take excess
  forEach (removeFile a) removed
  return (removed, kept.drop excess)

def prepare (a : Answers) : Run (List Name) := do
  check a.opened .io
  let b ← read
  let stale := b.names isTmpName
  forEach (removeFile a) stale
  return stale

def daily (a : Answers) (nowUnixMs : Nat) : Run SnapshotReport := do
  let staleTmpRemoved ← prepare a
  let name := dailyName nowUnixMs
  match a.empty with
  | none => fail .sqlite
  | some empty => do
    let b ← read
    let taken := !(empty || b.has name)
    doIf taken (write a name)
    let (rotatedOut, kept) ← rotate a
    return ⟨name, taken, empty, rotatedOut, staleTmpRemoved, kept⟩

def preUpgrade (a : Answers) (nowUnixMs toVersion : Nat) : Run Unit := do
  let _ ← prepare a
  write a (preUpgradeName nowUnixMs toVersion)
  let _ ← rotate a
  return ()

namespace Backups

variable {keep : Name → Bool} {b : Backups} {name : Name}

theorem names_perm : (b.names keep).Perm (b.listed keep) := sortByKey_perm id _

theorem mem_names {n : Name} : n ∈ b.names keep ↔ ⟨.text n, true⟩ ∈ b.entries ∧ keep n = true := by
  rw [names, mem_sortByKey, listed, List.mem_filterMap]
  constructor
  · intro h
    obtain ⟨⟨file, isFile⟩, hmem, hsome⟩ := h
    cases file with
    | bytes raw => cases hsome
    | text m =>
      change (if (isFile && keep m) = true then some m else none) = some n at hsome
      by_cases hkeep : (isFile && keep m) = true
      · rw [if_pos hkeep, Option.some_inj] at hsome
        rw [Bool.and_eq_true] at hkeep
        rw [← hsome]
        exact ⟨hkeep.1 ▸ hmem, hkeep.2⟩
      · rw [if_neg hkeep] at hsome
        cases hsome
  · intro h
    refine ⟨_, h.1, ?_⟩
    change (if (true && keep n) = true then some n else none) = some n
    rw [if_pos (by rw [Bool.true_and, h.2])]

theorem listed_remove : (b.remove name).listed keep = (b.listed keep).filter (· ≠ name) := by
  unfold listed remove
  rw [List.filterMap_filter, List.filter_filterMap]
  congr 1
  funext ⟨file, isFile⟩
  cases file with
  | bytes raw => rfl
  | text m =>
    by_cases heq : m = name
    · rw [heq]
      cases hkeep : isFile && keep name <;> simp [hkeep, Option.filter]
    · cases hkeep : isFile && keep m <;> simp [hkeep, heq, Option.filter]

theorem listed_create :
    (b.create name).listed keep =
      (b.listed keep).filter (· ≠ name) ++ if keep name then [name] else [] := by
  rw [← listed_remove]
  unfold create listed
  rw [List.filterMap_append]
  cases hkeep : keep name <;> simp [hkeep]

/-- A sorted list of the same members is the list of names. -/
theorem names_eq {l : List Name} (hperm : (b.listed keep).Perm l) (hsorted : l.Pairwise (· ≤ ·)) :
    b.names keep = l :=
  List.Perm.eq_of_pairwise (fun _ _ _ _ => le_antisymm) (pairwise_sortByKey id _) hsorted
    (names_perm.trans hperm)

theorem names_sorted : (b.names keep).Pairwise (· ≤ ·) := pairwise_sortByKey id _

theorem names_remove : (b.remove name).names keep = (b.names keep).filter (· ≠ name) := by
  apply names_eq
  · rw [listed_remove]
    exact names_perm.symm.filter _
  · exact names_sorted.filter _

/-- A file that the pattern does not accept changes no list of what it accepts. -/
theorem names_remove_other (h : keep name = false) : (b.remove name).names keep = b.names keep := by
  rw [names_remove, List.filter_eq_self]
  intro n hn
  have hne : n ≠ name := by
    intro heq
    rw [heq, mem_names, h] at hn
    exact Bool.noConfusion hn.2
  rw [decide_eq_true_eq]
  exact hne

theorem names_create_other (h : keep name = false) : (b.create name).names keep = b.names keep := by
  apply names_eq
  · rw [listed_create, h, ← listed_remove]
    exact (List.Perm.of_eq (List.append_nil _)).trans
      (names_perm.symm.trans (List.Perm.of_eq (names_remove_other h)))
  · exact names_sorted

/-- A file that sorts after all others comes last. -/
theorem names_create (h : keep name = true) (hlast : ∀ n ∈ b.names keep, n < name) :
    (b.create name).names keep = b.names keep ++ [name] := by
  apply names_eq
  · rw [listed_create, if_pos h, ← listed_remove]
    apply List.Perm.append_right
    have hsame : (b.remove name).names keep = b.names keep := by
      rw [names_remove, List.filter_eq_self]
      intro n hn
      rw [decide_eq_true_eq]
      exact (hlast n hn).ne
    exact names_perm.symm.trans (List.Perm.of_eq hsame)
  · rw [List.pairwise_append]
    refine ⟨names_sorted, List.pairwise_singleton _ _, ?_⟩
    intro n hn m hm
    rw [List.mem_singleton.mp hm]
    exact (hlast n hn).le

end Backups

/-- An entry whose name is that of no snapshot and of no temporary file of one. -/
def Foreign (entry : Entry) : Prop :=
  ∀ name, entry.name = .text name → isSnapshotName name = false ∧ isTmpName name = false

/-- The names that the calls up to a time give. -/
def Named (now : Nat) (name : Name) : Prop :=
  ∃ t ≤ now, FourDigits t ∧ (name = dailyName t ∨ ∃ v, name = preUpgradeName t v)

/-- Between two steps of a call: what is left is the end of what was written, and none of the
newest is missing. -/
structure Rotating (foreign : List Entry) (now : Nat) (b : Backups) : Prop where
  foreign : ∀ entry ∈ foreign, entry ∈ b.entries
  sorted : b.written.Pairwise (· < ·)
  named : ∀ name ∈ b.written, Named now name
  kept : ∃ k, b.names isSnapshotName = b.written.drop k ∧
    k + min KEEP b.written.length ≤ b.written.length

section

variable {foreign : List Entry} {now : Nat} {b : Backups} {name : Name} {a : Answers}

theorem snapshot_of_tmp (h : isTmpName name = true) : isSnapshotName name = false := by
  rw [Bool.eq_false_iff]
  intro hsnapshot
  exact not_both name ⟨hsnapshot, h⟩

theorem mem_remove (hforeign : ∀ entry ∈ foreign, Foreign entry)
    (hname : isSnapshotName name = true ∨ isTmpName name = true)
    (hkept : ∀ entry ∈ foreign, entry ∈ b.entries) :
    ∀ entry ∈ foreign, entry ∈ (b.remove name).entries := by
  intro entry hentry
  apply List.mem_filter.mpr
  refine ⟨hkept entry hentry, ?_⟩
  rw [decide_eq_true_eq]
  intro heq
  have hother := hforeign entry hentry name heq
  rcases hname with hname | hname
  · exact Bool.false_ne_true (hother.1.symm.trans hname)
  · exact Bool.false_ne_true (hother.2.symm.trans hname)

theorem Rotating.remove_tmp (hforeign : ∀ entry ∈ foreign, Foreign entry)
    (hname : isTmpName name = true) (h : Rotating foreign now b) :
    Rotating foreign now (b.remove name) where
  foreign := mem_remove hforeign (.inr hname) h.foreign
  sorted := h.sorted
  named := h.named
  kept := by
    rw [Backups.names_remove_other (snapshot_of_tmp hname)]
    exact h.kept

theorem Rotating.create_tmp (hforeign : ∀ entry ∈ foreign, Foreign entry)
    (hname : isTmpName name = true) (h : Rotating foreign now b) :
    Rotating foreign now (b.create name) where
  foreign entry hentry := List.mem_append_left _ ((h.remove_tmp hforeign hname).foreign entry hentry)
  sorted := h.sorted
  named := h.named
  kept := by
    rw [Backups.names_create_other (snapshot_of_tmp hname)]
    exact h.kept

/-- A snapshot whose name sorts after those written before it. -/
theorem Rotating.create (hforeign : ∀ entry ∈ foreign, Foreign entry)
    (hsnapshot : isSnapshotName name = true) (hnamed : Named now name)
    (hlast : ∀ n ∈ b.written, n < name) (h : Rotating foreign now b) :
    Rotating foreign now { b.create name with written := b.written ++ [name] } where
  foreign entry hentry :=
    List.mem_append_left _ (mem_remove hforeign (.inl hsnapshot) h.foreign entry hentry)
  sorted := by
    rw [List.pairwise_append]
    refine ⟨h.sorted, List.pairwise_singleton _ _, ?_⟩
    intro n hn m hm
    rw [List.mem_singleton.mp hm]
    exact hlast n hn
  named n hn := by
    rcases List.mem_append.mp hn with hold | hnew
    · exact h.named n hold
    · rw [List.mem_singleton.mp hnew]
      exact hnamed
  kept := by
    obtain ⟨k, hnames, hk⟩ := h.kept
    refine ⟨k, ?_, ?_⟩
    · have hlater : ∀ n ∈ b.names isSnapshotName, n < name :=
        fun n hn => hlast n (List.mem_of_mem_drop (hnames ▸ hn))
      change (b.create name).names isSnapshotName = _
      rw [Backups.names_create hsnapshot hlater, hnames, List.drop_append_of_le_length (by omega)]
    · rw [List.length_append, List.length_singleton]
      omega

/-- The oldest of more than is kept. -/
theorem Rotating.remove_oldest (hforeign : ∀ entry ∈ foreign, Foreign entry) {rest : List Name}
    (hnames : b.names isSnapshotName = name :: rest) (hmore : KEEP ≤ rest.length)
    (h : Rotating foreign now b) :
    Rotating foreign now (b.remove name) ∧ (b.remove name).names isSnapshotName = rest := by
  obtain ⟨k, hdrop, hk⟩ := h.kept
  rw [hnames] at hdrop
  have hsorted : (name :: rest).Pairwise (· < ·) := hdrop ▸ h.sorted.drop
  have hrest : (b.remove name).names isSnapshotName = rest := by
    rw [Backups.names_remove, hnames, List.filter_cons_of_neg (by simp), List.filter_eq_self]
    intro n hn
    rw [decide_eq_true_eq]
    exact ((List.pairwise_cons.mp hsorted).1 n hn).ne'
  have hsnapshot : isSnapshotName name = true := by
    have hmem : name ∈ b.names isSnapshotName := hnames ▸ List.mem_cons_self ..
    exact (Backups.mem_names.mp hmem).2
  constructor
  · constructor
    · exact mem_remove hforeign (.inl hsnapshot) h.foreign
    · exact h.sorted
    · exact h.named
    · refine ⟨k + 1, ?_, ?_⟩
      · rw [hrest]
        change rest = b.written.drop (k + 1)
        rw [← List.tail_drop, ← hdrop, List.tail_cons]
      · have hlength := congrArg List.length hdrop
        rw [List.length_cons, List.length_drop] at hlength
        change k + 1 + min KEEP b.written.length ≤ b.written.length
        unfold KEEP at hmore ⊢
        omega
  · exact hrest

theorem Rotating.later {now' : Nat} (hle : now ≤ now') (h : Rotating foreign now b) :
    Rotating foreign now' b where
  foreign := h.foreign
  sorted := h.sorted
  named name hname := by
    obtain ⟨t, ht, hnamed⟩ := h.named name hname
    exact ⟨t, ht.trans hle, hnamed⟩
  kept := h.kept

/-- What is kept is the end of what was written, at its full length. -/
theorem Rotating.names_eq (h : Rotating foreign now b)
    (hle : (b.names isSnapshotName).length ≤ KEEP) :
    b.names isSnapshotName = b.written.drop (b.written.length - KEEP) := by
  obtain ⟨k, hnames, hk⟩ := h.kept
  rw [hnames, List.length_drop] at hle
  have hplace : k = b.written.length - KEEP := by
    unfold KEEP at hle hk ⊢
    omega
  rw [hnames, hplace]

end

/-! The steps of a call keep this, and a rotation that ends brings the number down. -/

section

variable {foreign : List Entry} {now : Nat} {a : Answers} {W : List Name → Prop}

theorem removeFile_tmp (hforeign : ∀ entry ∈ foreign, Foreign entry) {name : Name}
    (hname : isTmpName name = true) :
    Holds (fun b => Rotating foreign now b ∧ W b.written) (removeFile a name)
      (fun _ b => Rotating foreign now b ∧ W b.written) (Rotating foreign now) :=
  (holds_check fun _ h => h.1).bind fun _ =>
    holds_modify fun _ h => ⟨h.1.remove_tmp hforeign hname, h.2⟩

theorem create_tmp (hforeign : ∀ entry ∈ foreign, Foreign entry) {name : Name}
    (hname : isTmpName name = true) :
    Holds (fun b => Rotating foreign now b ∧ W b.written) (modify (Backups.create name) : Run Unit)
      (fun _ b => Rotating foreign now b ∧ W b.written) (Rotating foreign now) :=
  holds_modify fun _ h => ⟨h.1.create_tmp hforeign hname, h.2⟩

theorem prepare_holds (hforeign : ∀ entry ∈ foreign, Foreign entry) :
    Holds (fun b => Rotating foreign now b ∧ W b.written) (prepare a)
      (fun _ b => Rotating foreign now b ∧ W b.written) (Rotating foreign now) := by
  apply (holds_check fun _ h => h.1).bind
  intro _
  apply holds_read.bind
  intro b
  have hloop : Holds (fun s => b = s ∧ Rotating foreign now s ∧ W s.written)
      (forEach (removeFile a) (b.names isTmpName))
      (fun _ b => Rotating foreign now b ∧ W b.written) (Rotating foreign now) := by
    have hkeeps := holds_forEach (E := Rotating foreign now) (f := removeFile a)
      (I := fun rest b => (∀ n ∈ rest, isTmpName n = true) ∧ Rotating foreign now b ∧ W b.written)
      (by
        intro name rest s hs
        have hstep := removeFile_tmp (a := a) (W := W) hforeign (hs.1 name (List.mem_cons_self ..))
          s hs.2
        exact ⟨fun u s' hrun => ⟨fun n hn => hs.1 n (List.mem_cons_of_mem _ hn),
          hstep.1 u s' hrun⟩, hstep.2⟩) (b.names isTmpName)
    exact hkeeps.weaken (fun s hs => ⟨fun n hn => (Backups.mem_names.mp hn).2, hs.2⟩)
      (fun _ _ h => h.2) fun _ h => h
  exact hloop.bind fun _ => holds_pure fun _ h => h

theorem isTmpName_tmpName {name sidecar : Name} (hname : isSnapshotName name = true)
    (hsidecar : sidecar = [] ∨ sidecar ∈ TMP_SIDECARS) :
    isTmpName (tmpName name ++ sidecar) = true :=
  (isTmpName_iff _).mpr ⟨name, sidecar, hname, hsidecar, rfl⟩

theorem write_holds (hforeign : ∀ entry ∈ foreign, Foreign entry) {name : Name}
    (hsnapshot : isSnapshotName name = true) (hnamed : Named now name) :
    Holds (fun b => Rotating foreign now b ∧ ∀ n ∈ b.written, n < name) (write a name)
      (fun _ => Rotating foreign now) (Rotating foreign now) := by
  have htmp : isTmpName (tmpName name) = true := by
    rw [← List.append_nil (tmpName name)]
    exact isTmpName_tmpName hsnapshot (.inl rfl)
  let before : Backups → Prop := fun b => Rotating foreign now b ∧ ∀ n ∈ b.written, n < name
  have hremove : Holds before (removeFile a (tmpName name)) (fun _ => before)
      (Rotating foreign now) := removeFile_tmp (W := fun w => ∀ n ∈ w, n < name) hforeign htmp
  have hcreate : Holds before (modify (Backups.create (tmpName name)) : Run Unit)
      (fun _ => before) (Rotating foreign now) :=
    create_tmp (W := fun w => ∀ n ∈ w, n < name) hforeign htmp
  apply (holds_read (P := before)).bind
  intro b
  have hclean : Holds (fun s => b = s ∧ before s)
      (doIf (b.has (tmpName name)) (removeFile a (tmpName name))) (fun _ => before)
      (Rotating foreign now) :=
    (holds_doIf hremove).weaken (fun _ h => h.2) (fun _ _ h => h) fun _ h => h
  apply hclean.bind
  intro _
  apply (holds_check fun _ h => h.1).bind
  intro _
  cases a.vacuum with
  | failed left =>
    have hloop := holds_forEach (E := Rotating foreign now)
      (f := fun file => (modify (Backups.create file) : Run Unit))
      (I := fun rest b => (∀ n ∈ rest, isTmpName n = true) ∧ before b)
      (fun file rest => holds_modify fun s hs =>
        ⟨fun n hn => hs.1 n (List.mem_cons_of_mem _ hn),
          hs.2.1.create_tmp hforeign (hs.1 file (List.mem_cons_self ..)), hs.2.2⟩)
      ((tmpName name :: TMP_SIDECARS.map (tmpName name ++ ·)).filter left.contains)
    have hleft : ∀ n ∈ (tmpName name :: TMP_SIDECARS.map (tmpName name ++ ·)).filter left.contains,
        isTmpName n = true := by
      intro n hn
      rcases List.mem_cons.mp (List.mem_of_mem_filter hn) with heq | hmem
      · rw [heq]
        exact htmp
      · obtain ⟨sidecar, hsidecar, heq⟩ := List.mem_map.mp hmem
        rw [← heq]
        exact isTmpName_tmpName hsnapshot (.inr hsidecar)
    have hbefore : Holds before _ (fun _ => before) (Rotating foreign now) :=
      hloop.weaken (fun s hs => ⟨hleft, hs⟩) (fun _ _ h => h.2) fun _ h => h
    exact hbefore.bind fun _ => holds_fail fun _ h => h.1
  | damaged text =>
    exact hcreate.bind fun _ => hremove.bind fun _ => holds_fail fun _ h => h.1
  | copied =>
    apply hcreate.bind
    intro _
    apply (holds_check fun _ h => h.1).bind
    intro _
    apply holds_modify
    intro s hs
    exact (hs.1.remove_tmp hforeign htmp).create hforeign hsnapshot hnamed hs.2

/-- After a rotation the files are the newest that were written. -/
theorem rotate_holds (hforeign : ∀ entry ∈ foreign, Foreign entry) :
    Holds (Rotating foreign now) (rotate a)
      (fun r b => Rotating foreign now b ∧ r.2 = b.names isSnapshotName ∧
        b.names isSnapshotName = b.written.drop (b.written.length - KEEP))
      (Rotating foreign now) := by
  apply (holds_check fun _ h => h).bind
  intro _
  apply holds_read.bind
  intro b
  let kept := b.names isSnapshotName
  let excess := kept.length - KEEP
  have hloop := holds_forEach (E := Rotating foreign now) (f := removeFile a)
    (I := fun rest s => Rotating foreign now s ∧
      s.names isSnapshotName = rest ++ kept.drop excess ∧
        (rest ≠ [] → KEEP ≤ (kept.drop excess).length))
    (by
      intro name rest
      apply (holds_check fun _ h => h.1).bind
      intro _
      apply holds_modify
      intro s hs
      obtain ⟨hrotating, hnames, hmore⟩ := hs
      have hlength : KEEP ≤ (rest ++ kept.drop excess).length := by
        rw [List.length_append]
        exact (hmore (List.cons_ne_nil _ _)).trans (Nat.le_add_left _ _)
      have hstep := hrotating.remove_oldest hforeign hnames hlength
      exact ⟨hstep.1, hstep.2, fun _ => hmore (List.cons_ne_nil _ _)⟩)
    (kept.take excess)
  have hremoved : Holds (fun s => b = s ∧ Rotating foreign now s)
      (forEach (removeFile a) (kept.take excess))
      (fun _ s => Rotating foreign now s ∧ s.names isSnapshotName = kept.drop excess)
      (Rotating foreign now) := by
    apply hloop.weaken
    · intro s hs
      refine ⟨hs.2, ?_, ?_⟩
      · rw [List.take_append_drop, ← hs.1]
      · intro hne
        have hpos : excess ≠ 0 := by
          intro hzero
          rw [hzero, List.take_zero] at hne
          exact hne rfl
        rw [List.length_drop]
        omega
    · intro _ s hs
      exact ⟨hs.1, hs.2.1⟩
    · exact fun _ h => h
  apply hremoved.bind
  intro _
  apply holds_pure
  intro s hs
  have hshort : (s.names isSnapshotName).length ≤ KEEP := by
    rw [hs.2, List.length_drop]
    omega
  exact ⟨hs.1, hs.2.symm, hs.1.names_eq hshort⟩

end

end Agend.Snapshots
