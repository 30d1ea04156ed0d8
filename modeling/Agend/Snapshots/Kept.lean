import Mathlib.Data.List.Induction
import Agend.Snapshots.Rotation

/-! Which snapshots are there after any run of daily and upgrade calls. -/
namespace Agend.Snapshots

open Library Effect

inductive Call
  | daily (nowUnixMs : Nat)
  | preUpgrade (nowUnixMs toVersion : Nat)

namespace Call

def now : Call → Nat
  | daily nowUnixMs => nowUnixMs
  | preUpgrade nowUnixMs _ => nowUnixMs

/-- A daily call reports, an upgrade only ends. -/
def exec (a : Answers) : Call → Run (Option SnapshotReport)
  | daily nowUnixMs => do
    let report ← Snapshots.daily a nowUnixMs
    return some report
  | preUpgrade nowUnixMs toVersion => do
    Snapshots.preUpgrade a nowUnixMs toVersion
    return none

end Call

/-- The directory after calls that end well or not. -/
def after (b : Backups) (calls : List (Call × Answers)) : Backups :=
  calls.foldl (fun b call => (call.1.exec call.2 b).2) b

/-- On its date, the name of an upgrade sorts after those written before. -/
def Follows (nowUnixMs toVersion : Nat) (written : List Name) : Prop :=
  dailyName nowUnixMs ∉ written ∧ ∀ version, preUpgradeName nowUnixMs version ∈ written →
    preUpgradeName nowUnixMs version < preUpgradeName nowUnixMs toVersion

def Call.InOrder : Call → List Name → Prop
  | .daily _, _ => True
  | .preUpgrade nowUnixMs toVersion, written => Follows nowUnixMs toVersion written

theorem name_lt {t now : Nat} (ht : FourDigits t) (hnow : FourDigits now)
    (h : utcDate t < utcDate now) (x y : Name) :
    PREFIX ++ (utcDate t ++ x) < PREFIX ++ (utcDate now ++ y) := by
  apply List.append_left_lt
  apply append_lt_append _ h
  rw [(dateShaped_utcDate ht).length, (dateShaped_utcDate hnow).length]

/-- The dash sorts before the dot. -/
theorem preUpgradeName_lt_dailyName (now version : Nat) :
    preUpgradeName now version < dailyName now := by
  apply List.append_left_lt
  apply List.append_left_lt
  exact .rel (by decide)

/-- Names of one date have the same shape with the date of the later time. -/
theorem Named.eq_or_lt {now : Nat} {name : Name} (hnow : FourDigits now) (h : Named now name) :
    name = dailyName now ∨ (∃ v, name = preUpgradeName now v) ∨
      ∀ y, name < PREFIX ++ (utcDate now ++ y) := by
  obtain ⟨t, hle, ht, hname⟩ := h
  rcases utcDate_mono hnow hle with hsame | hlt
  · rcases hname with hdaily | ⟨v, hupgrade⟩
    · exact .inl (by rw [hdaily, dailyName, hsame]; rfl)
    · exact .inr (.inl ⟨v, by rw [hupgrade, preUpgradeName, hsame]; rfl⟩)
  · refine .inr (.inr ?_)
    intro y
    rcases hname with hdaily | ⟨v, hupgrade⟩
    · rw [hdaily]
      exact name_lt ht hnow hlt _ y
    · rw [hupgrade]
      exact name_lt ht hnow hlt _ y

theorem Named.le_dailyName {now : Nat} {name : Name} (hnow : FourDigits now)
    (h : Named now name) : name ≤ dailyName now := by
  rcases h.eq_or_lt hnow with hdaily | ⟨v, hupgrade⟩ | hlt
  · exact hdaily.le
  · rw [hupgrade]
    exact (preUpgradeName_lt_dailyName now v).le
  · exact (hlt _).le

section

def Entry.isForeign (entry : Entry) : Bool :=
  match entry.name with
  | .text name => !(isSnapshotName name || isTmpName name)
  | .bytes _ => true

theorem isForeign_iff {entry : Entry} : entry.isForeign = true ↔ Foreign entry := by
  constructor
  · intro hother name hname
    simp only [Entry.isForeign, hname, Bool.not_eq_true', Bool.or_eq_false_iff] at hother
    exact hother
  · intro hother
    cases hname : entry.name with
    | bytes raw => simp [Entry.isForeign, hname]
    | text name =>
      have hboth := hother name hname
      simp [Entry.isForeign, hname, hboth.1, hboth.2]

variable {foreign : List Entry} {now : Nat} {b : Backups} {a : Answers}

/-- The last one that was written is still there. -/
theorem Rotating.last_mem (h : Rotating foreign now b) {name : Name}
    (hlast : b.written.getLast? = some name) : name ∈ b.names isSnapshotName := by
  obtain ⟨k, hnames, hk⟩ := h.kept
  have hpos : 0 < b.written.length := by
    cases hwritten : b.written with
    | nil => rw [hwritten] at hlast; cases hlast
    | cons n rest => exact Nat.succ_pos _
  have hlt : k < b.written.length := by
    unfold KEEP at hk
    omega
  rw [hnames]
  apply List.mem_of_getLast?
  rw [List.getLast?_drop, if_neg (by omega)]
  exact hlast

/-- Where today's file is not there, all that was written is older. -/
theorem Rotating.lt_dailyName (hnow : FourDigits now) (h : Rotating foreign now b)
    (hmissing : b.has (dailyName now) = false) : ∀ n ∈ b.written, n < dailyName now := by
  intro n hn
  have hle := (h.named n hn).le_dailyName hnow
  apply lt_of_le_of_ne hle
  intro heq
  -- nothing sorts after it, so it is the last one
  have hlast : b.written.getLast? = some n := by
    obtain ⟨last, hlast⟩ : ∃ last, b.written.getLast? = some last := by
      cases hget : b.written.getLast? with
      | none => rw [List.getLast?_eq_none_iff.mp hget] at hn; exact absurd hn List.not_mem_nil
      | some last => exact ⟨last, rfl⟩
    have hmem := List.mem_of_getLast? hlast
    have hupper : last ≤ n := heq ▸ (h.named last hmem).le_dailyName hnow
    have hlower : n ≤ last := by
      obtain ⟨before, hsplit⟩ := List.getLast?_eq_some_iff.mp hlast
      rw [hsplit] at hn
      rcases List.mem_append.mp hn with hbefore | hsame
      · have hsorted := h.sorted
        rw [hsplit, List.pairwise_append] at hsorted
        exact (hsorted.2.2 n hbefore last (List.mem_singleton_self _)).le
      · exact (List.mem_singleton.mp hsame).le
    rw [hlast, le_antisymm hupper hlower]
  have hthere := (Backups.mem_names.mp (h.last_mem hlast)).1
  have hhas : b.has (dailyName now) = true := by
    apply List.any_eq_true.mpr
    exact ⟨_, hthere, by rw [heq, decide_eq_true_eq]⟩
  rw [hmissing] at hhas
  cases hhas

theorem Follows.lt (hnow : FourDigits now) {version : Nat} (h : Rotating foreign now b)
    (hfollows : Follows now version b.written) :
    ∀ n ∈ b.written, n < preUpgradeName now version := by
  intro n hn
  rcases (h.named n hn).eq_or_lt hnow with hdaily | ⟨v, hupgrade⟩ | hlt
  · exact absurd (hdaily ▸ hn) hfollows.1
  · rw [hupgrade]
    exact hfollows.2 v (hupgrade ▸ hn)
  · exact hlt _

/-- What holds after a call that ended well. -/
def Newest (b : Backups) : Prop :=
  b.names isSnapshotName = b.written.drop (b.written.length - KEEP)

theorem daily_holds (hforeign : ∀ entry ∈ foreign, Foreign entry) (hnow : FourDigits now) :
    Holds (Rotating foreign now) (daily a now)
      (fun report b => Rotating foreign now b ∧ report.kept = b.names isSnapshotName ∧ Newest b)
      (Rotating foreign now) := by
  have hprepare : Holds (Rotating foreign now) (prepare a) (fun _ => Rotating foreign now)
      (Rotating foreign now) :=
    (prepare_holds (W := fun _ => True) hforeign).weaken (fun _ h => ⟨h, trivial⟩)
      (fun _ _ h => h.1) fun _ h => h
  apply hprepare.bind
  intro stale
  cases a.empty with
  | none => exact holds_fail fun _ h => h
  | some empty =>
    apply holds_read.bind
    intro b
    have hwrite : Holds (fun s => b = s ∧ Rotating foreign now s)
        (doIf (!(empty || b.has (dailyName now))) (write a (dailyName now)))
        (fun _ => Rotating foreign now) (Rotating foreign now) := by
      cases htaken : !(empty || b.has (dailyName now)) with
      | false => exact holds_pure fun _ h => h.2
      | true =>
        have hmissing : b.has (dailyName now) = false := by
          rw [Bool.not_eq_true', Bool.or_eq_false_iff] at htaken
          exact htaken.2
        have hnamed : Named now (dailyName now) := ⟨now, le_rfl, hnow, .inl rfl⟩
        apply (write_holds hforeign (dailyName_snapshot hnow) hnamed).weaken
        · intro s hs
          refine ⟨hs.2, ?_⟩
          rw [hs.1] at hmissing
          exact hs.2.lt_dailyName hnow hmissing
        · exact fun _ _ h => h
        · exact fun _ h => h
    apply hwrite.bind
    intro _
    apply (rotate_holds hforeign).bind
    intro r
    exact holds_pure fun _ h => h

theorem preUpgrade_holds (hforeign : ∀ entry ∈ foreign, Foreign entry) (hnow : FourDigits now)
    {version : Nat} :
    Holds (fun b => Rotating foreign now b ∧ Follows now version b.written)
      (preUpgrade a now version) (fun _ b => Rotating foreign now b ∧ Newest b)
      (Rotating foreign now) := by
  apply (prepare_holds hforeign).bind
  intro _
  have hnamed : Named now (preUpgradeName now version) := ⟨now, le_rfl, hnow, .inr ⟨version, rfl⟩⟩
  have hwrite : Holds (fun b => Rotating foreign now b ∧ Follows now version b.written)
      (write a (preUpgradeName now version)) (fun _ => Rotating foreign now)
      (Rotating foreign now) :=
    (write_holds hforeign (preUpgradeName_snapshot hnow version) hnamed).weaken
      (fun _ h => ⟨h.1, Follows.lt hnow h.1 h.2⟩) (fun _ _ h => h) fun _ h => h
  apply hwrite.bind
  intro _
  apply (rotate_holds hforeign).bind
  intro _
  exact holds_pure fun _ h => ⟨h.1, h.2.2⟩

/-- One call. -/
theorem exec_holds (hforeign : ∀ entry ∈ foreign, Foreign entry) (call : Call)
    (hnow : FourDigits call.now) :
    Holds (fun b => Rotating foreign call.now b ∧ call.InOrder b.written) (call.exec a)
      (fun report b => Rotating foreign call.now b ∧ Newest b ∧
        ∀ r ∈ report, r.kept = b.names isSnapshotName)
      (Rotating foreign call.now) := by
  cases call with
  | daily nowUnixMs =>
    apply ((daily_holds hforeign hnow).weaken (fun _ h => h.1) (fun _ _ h => h) fun _ h => h).bind
    intro report
    apply holds_pure
    intro s hs
    refine ⟨hs.1, hs.2.2, ?_⟩
    intro r hr
    rw [← Option.mem_some_iff.mp hr]
    exact hs.2.1
  | preUpgrade nowUnixMs toVersion =>
    apply (preUpgrade_holds hforeign hnow).bind
    intro _
    apply holds_pure
    intro s hs
    exact ⟨hs.1, hs.2, fun r hr => absurd hr (by simp)⟩

end

/-- Calls in the order of a clock that does not go back, each upgrade in the order of its date. -/
structure Schedule (b : Backups) (calls : List (Call × Answers)) : Prop where
  clock : calls.Pairwise fun c d => c.1.now ≤ d.1.now
  dates : ∀ c ∈ calls, FourDigits c.1.now
  order : ∀ before c rest, calls = before ++ c :: rest → c.1.InOrder (after b before).written

theorem Schedule.init {b : Backups} {calls : List (Call × Answers)} {c : Call × Answers}
    (h : Schedule b (calls ++ [c])) : Schedule b calls where
  clock := (List.pairwise_append.mp h.clock).1
  dates d hd := h.dates d (List.mem_append_left _ hd)
  order before d rest heq := by
    apply h.order before d (rest ++ [c])
    rw [heq, List.append_assoc, List.cons_append]

theorem after_concat (b : Backups) (calls : List (Call × Answers)) (c : Call × Answers) :
    after b (calls ++ [c]) = (c.1.exec c.2 (after b calls)).2 := by
  simp [after]

/-- Whatever way a call ends, it leaves what the next one needs. -/
theorem exec_rotating {foreign : List Entry} (hforeign : ∀ entry ∈ foreign, Foreign entry)
    (call : Call) (a : Answers) (hnow : FourDigits call.now) {b : Backups}
    (h : Rotating foreign call.now b) (horder : call.InOrder b.written) :
    Rotating foreign call.now (call.exec a b).2 := by
  have hexec := exec_holds (a := a) hforeign call hnow b ⟨h, horder⟩
  cases hrun : call.exec a b with
  | mk result b' =>
    cases result with
    | ok r => exact (hexec.1 r b' hrun).1
    | error e => exact hexec.2 e b' hrun

/-- The same after any run, with every later clock. -/
theorem after_rotating {foreign : List Entry} (hforeign : ∀ entry ∈ foreign, Foreign entry)
    {b : Backups} (hstart : Rotating foreign 0 b) (calls : List (Call × Answers)) (now : Nat)
    (hschedule : Schedule b calls) (hnow : ∀ c ∈ calls, c.1.now ≤ now) :
    Rotating foreign now (after b calls) := by
  induction calls using List.reverseRecOn generalizing now with
  | nil => exact hstart.later (Nat.zero_le now)
  | append_singleton calls c ih =>
    have hmem : c ∈ calls ++ [c] := List.mem_append_right _ (List.mem_singleton_self c)
    have hclock : ∀ d ∈ calls, d.1.now ≤ c.1.now := by
      intro d hd
      exact (List.pairwise_append.mp hschedule.clock).2.2 d hd c (List.mem_singleton_self c)
    rw [after_concat]
    have hrotating := exec_rotating hforeign c.1 c.2 (hschedule.dates c hmem)
      (ih c.1.now hschedule.init hclock) (hschedule.order calls c [] rfl)
    exact hrotating.later (hnow c hmem)

/-- In any run from a directory without snapshots, a call that ends well leaves the newest seven of
those written, and one that fails misses none of them; no call deletes a file with another name.
The two patterns accept the names of their shapes, none of them both. Dates are those of the
calendar and do not go back. -/
theorem snapshots_rotate :
    (∀ (b : Backups) (calls : List (Call × Answers)) (call : Call) (a : Answers),
      b.written = [] → b.names isSnapshotName = [] → Schedule b (calls ++ [(call, a)]) →
        (∀ report, (call.exec a (after b calls)).1 = .ok report →
          Newest (after b (calls ++ [(call, a)])) ∧
          ∀ r ∈ report, r.kept = (after b (calls ++ [(call, a)])).names isSnapshotName) ∧
        (∃ k, (after b (calls ++ [(call, a)])).names isSnapshotName =
            (after b (calls ++ [(call, a)])).written.drop k ∧
          k + min KEEP (after b (calls ++ [(call, a)])).written.length ≤
            (after b (calls ++ [(call, a)])).written.length) ∧
        ∀ entry ∈ b.entries, Foreign entry → entry ∈ (after b (calls ++ [(call, a)])).entries) ∧
    (∀ name, isSnapshotName name = true ↔ ∃ date tail, DateShaped date ∧ TailShaped tail ∧
      name = PREFIX ++ (date ++ (tail ++ SUFFIX))) ∧
    (∀ unixMs version, FourDigits unixMs → isSnapshotName (dailyName unixMs) = true ∧
      isSnapshotName (preUpgradeName unixMs version) = true) ∧
    (∀ name, isTmpName name = true ↔ ∃ snapshot sidecar, isSnapshotName snapshot = true ∧
      (sidecar = [] ∨ sidecar ∈ TMP_SIDECARS) ∧ name = tmpName snapshot ++ sidecar) ∧
    (∀ name, ¬ (isSnapshotName name = true ∧ isTmpName name = true)) ∧
    (∀ unixMs, utcDate unixMs = dateText (Date.ofDays (unixMs / DAY_MS))) ∧
    ∀ s t, s ≤ t → FourDigits t → utcDate s ≤ utcDate t := by
  refine ⟨?_, isSnapshotName_iff, ?_, isTmpName_iff, not_both, utcDate_eq, ?_⟩
  · intro b calls call a hwritten hnone hschedule
    let foreign := b.entries.filter Entry.isForeign
    have hforeign : ∀ entry ∈ foreign, Foreign entry := by
      intro entry hentry
      exact isForeign_iff.mp (List.mem_filter.mp hentry).2
    have hstart : Rotating foreign 0 b := by
      constructor
      · exact fun entry hentry => (List.mem_filter.mp hentry).1
      · rw [hwritten]
        exact List.Pairwise.nil
      · rw [hwritten]
        exact fun name hname => absurd hname List.not_mem_nil
      · rw [hwritten, hnone]
        exact ⟨0, rfl, le_rfl⟩
    have hclock : ∀ c ∈ calls ++ [(call, a)], c.1.now ≤ call.now := by
      intro c hc
      rcases List.mem_append.mp hc with hbefore | hlast
      · exact (List.pairwise_append.mp hschedule.clock).2.2 c hbefore _
          (List.mem_singleton_self _)
      · rw [List.mem_singleton.mp hlast]
    have hmem : (call, a) ∈ calls ++ [(call, a)] :=
      List.mem_append_right _ (List.mem_singleton_self _)
    have hready := after_rotating hforeign hstart calls call.now hschedule.init
      fun c hc => hclock c (List.mem_append_left _ hc)
    have hend := after_rotating hforeign hstart _ call.now hschedule hclock
    have hexec := exec_holds (a := a) hforeign call (hschedule.dates _ hmem) _
      ⟨hready, hschedule.order calls (call, a) [] rfl⟩
    refine ⟨?_, hend.kept, ?_⟩
    · intro report hok
      have hdone := hexec.1 report _ (Prod.ext hok rfl)
      rw [after_concat]
      exact hdone.2
    · intro entry hentry hother
      apply hend.foreign
      apply List.mem_filter.mpr
      exact ⟨hentry, isForeign_iff.mpr hother⟩
  · intro unixMs version h
    exact ⟨dailyName_snapshot h, preUpgradeName_snapshot h version⟩
  · intro s t hle ht
    rcases utcDate_mono ht hle with hsame | hlt
    · exact hsame.le
    · exact hlt.le

/-- All that is asked of the outside goes well, and the database is not empty. -/
def smooth : Answers := ⟨true, true, fun _ => true, true, true, some false, .copied⟩

/-- Each call is in order after those before it. -/
def InTurn (b : Backups) : List (Call × Answers) → Prop
  | [] => True
  | c :: calls => c.1.InOrder b.written ∧ InTurn (c.1.exec c.2 b).2 calls

theorem inOrder_of_inTurn {b : Backups} {calls : List (Call × Answers)} (h : InTurn b calls) :
    ∀ before c rest, calls = before ++ c :: rest → c.1.InOrder (after b before).written := by
  intro before c rest heq
  induction before generalizing b calls with
  | nil =>
    subst heq
    exact h.1
  | cons d before ih =>
    subst heq
    exact ih h.2 rfl

/-- A file of another name. -/
def noted : Backups := ⟨[⟨.text "notes".toList, true⟩], []⟩

/-- Snapshots on seven days, on the third of them one before an upgrade too. -/
def upgradeBeforeDaily : List (Call × Answers) :=
  [(.daily 0, smooth), (.daily DAY_MS, smooth), (.preUpgrade (2 * DAY_MS) 2, smooth),
    (.daily (2 * DAY_MS), smooth), (.daily (3 * DAY_MS), smooth), (.daily (4 * DAY_MS), smooth),
    (.daily (5 * DAY_MS), smooth), (.daily (6 * DAY_MS), smooth)]

theorem schedule_upgradeBeforeDaily :
    Schedule noted (upgradeBeforeDaily ++ [(.daily (7 * DAY_MS), smooth)]) := by
  constructor
  · decide
  · unfold FourDigits
    decide
  · apply inOrder_of_inTurn
    refine ⟨trivial, trivial, ?_, trivial, trivial, trivial, trivial, trivial, trivial, trivial⟩
    have hwritten : (after noted (upgradeBeforeDaily.take 2)).written =
        [dailyName 0, dailyName DAY_MS] := by decide +kernel
    change Follows (2 * DAY_MS) 2 (after noted (upgradeBeforeDaily.take 2)).written
    rw [hwritten]
    refine ⟨by decide +kernel, fun version hmem => ?_⟩
    -- No name of another date is one of this date.
    have hfirst : dailyName 0 < preUpgradeName (2 * DAY_MS) version :=
      name_lt (by unfold FourDigits; decide) (by unfold FourDigits; decide) (by decide +kernel) _ _
    have hsecond : dailyName DAY_MS < preUpgradeName (2 * DAY_MS) version :=
      name_lt (by unfold FourDigits; decide) (by unfold FourDigits; decide) (by decide +kernel) _ _
    rcases List.mem_pair.mp hmem with heq | heq
    · exact absurd heq hfirst.ne'
    · exact absurd heq hsecond.ne'

/-- Nine snapshots: the seven newest are left, the one before the upgrade among them, and the other
file. -/
theorem snapshots_rotate_upgraded :
    let b := after noted (upgradeBeforeDaily ++ [(.daily (7 * DAY_MS), smooth)])
    b.written.length = 9 ∧ Newest b ∧ dailyName 0 ∉ b.names isSnapshotName ∧
      preUpgradeName (2 * DAY_MS) 2 ∈ b.names isSnapshotName ∧
      ⟨.text "notes".toList, true⟩ ∈ b.entries := by
  intro b
  have hrun := snapshots_rotate.1 noted upgradeBeforeDaily (.daily (7 * DAY_MS)) smooth rfl
    (by decide +kernel) schedule_upgradeBeforeDaily
  have hok : ((Call.daily (7 * DAY_MS)).exec smooth (after noted upgradeBeforeDaily)).1.isOk =
      true := by decide +kernel
  have hnewest : Newest b := by
    cases hresult : ((Call.daily (7 * DAY_MS)).exec smooth (after noted upgradeBeforeDaily)).1 with
    | ok report => exact (hrun.1 report hresult).1
    | error e =>
      rw [hresult] at hok
      cases hok
  refine ⟨by decide +kernel, hnewest, by decide +kernel, by decide +kernel,
    hrun.2.2 _ (List.mem_singleton_self _) ?_⟩
  intro name hname
  rw [← FileName.text.inj hname]
  decide

/-- An upgrade on the day of a daily snapshot, and a snapshot on each of six days after it: all end
well, and the copy made before the upgrade is the one that is deleted. -/
def upgradeAfterDaily : List (Call × Answers) :=
  [(.daily 0, smooth), (.preUpgrade 0 2, smooth), (.daily DAY_MS, smooth),
    (.daily (2 * DAY_MS), smooth), (.daily (3 * DAY_MS), smooth), (.daily (4 * DAY_MS), smooth),
    (.daily (5 * DAY_MS), smooth), (.daily (6 * DAY_MS), smooth)]

/-- Seven are kept there that are not the newest; and a name is accepted that no call gives. -/
theorem upgrade_deleted :
    ((upgradeAfterDaily.Pairwise fun c d => c.1.now ≤ d.1.now) ∧
      (after ⟨[], []⟩ upgradeAfterDaily).written.length = 8 ∧
      ¬ Newest (after ⟨[], []⟩ upgradeAfterDaily) ∧
      preUpgradeName 0 2 ∉ (after ⟨[], []⟩ upgradeAfterDaily).names isSnapshotName ∧
      dailyName 0 ∈ (after ⟨[], []⟩ upgradeAfterDaily).names isSnapshotName) ∧
    isSnapshotName "agend-2026-10-12-pre-v007.db".toList = true ∧
    ∀ (date : Name) (version : Nat), date.length = 10 →
      PREFIX ++ (date ++ SUFFIX) ≠ "agend-2026-10-12-pre-v007.db".toList ∧
      PREFIX ++ (date ++ ("-pre-v".toList ++ (version.repr.toList ++ SUFFIX))) ≠
        "agend-2026-10-12-pre-v007.db".toList := by
  refine ⟨⟨by decide, by decide +kernel, by unfold Newest; decide +kernel, by decide +kernel,
    by decide +kernel⟩, by decide +kernel, ?_⟩
  intro date version hdate
  constructor
  · intro heq
    have hlength := congrArg List.length heq
    rw [List.length_append, List.length_append, hdate] at hlength
    exact absurd hlength (by decide)
  · intro heq
    have htail : version.repr.toList ++ SUFFIX = "007".toList ++ SUFFIX := by
      have hlength : (PREFIX ++ date ++ "-pre-v".toList).length = 22 := by
        rw [List.length_append, List.length_append, hdate]
        decide
      have hdrop := congrArg (List.drop 22) heq
      rw [← List.append_assoc, ← List.append_assoc, List.drop_left' hlength] at hdrop
      exact hdrop
    have hnumeral := List.append_cancel_right htail
    have hvalue : Nat.ofDigitChars 10 version.repr.toList 0 = version := by
      rw [Nat.toList_repr]
      exact Nat.ofDigitChars_ten_toDigits
    rw [hnumeral] at hvalue
    rw [← hvalue] at hnumeral
    exact absurd hnumeral (by decide)

end Agend.Snapshots
