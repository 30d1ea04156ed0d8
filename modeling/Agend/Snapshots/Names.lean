import Mathlib.Data.List.Lex
import Agend.Library.Decimal
import Agend.Library.Utf8
import Agend.Snapshots.Dates

/-! The file names of snapshots and of what an interrupted one leaves behind. -/
namespace Agend.Snapshots

open Library

abbrev Name := List Char

def PREFIX : Name := "agend-".toList

def SUFFIX : Name := ".db".toList

def TMP_SUFFIX : Name := ".tmp".toList

/-- A date as it is written. -/
def dateText (date : Date) : Name :=
  padded 4 date.year ++ '-' :: (padded 2 date.month ++ '-' :: padded 2 date.day)

def utcDate (unixMs : Nat) : Name := dateText (civilFromDays (unixMs / DAY_MS))

def dailyName (unixMs : Nat) : Name := PREFIX ++ (utcDate unixMs ++ SUFFIX)

/-- A schema version is a number of migrations. -/
def preUpgradeName (unixMs toVersion : Nat) : Name :=
  PREFIX ++ (utcDate unixMs ++ ("-pre-v".toList ++ (toVersion.repr.toList ++ SUFFIX)))

def isAsciiDigit (b : UInt8) : Bool := 48 ≤ b.toNat && b.toNat ≤ 57

def dateOk (date : Name) : Bool :=
  (utf8Bytes date).zipIdx.all fun (b, i) =>
    if i = 4 ∨ i = 7 then b.toNat = 45 else isAsciiDigit b

def tailOk (tail : Name) : Bool :=
  tail.isEmpty || match "-pre-v".toList.isPrefixOf? tail with
    | some n => !n.isEmpty && (utf8Bytes n).all isAsciiDigit
    | none => false

def isSnapshotName (name : Name) : Bool :=
  match PREFIX.isPrefixOf? name with
  | none => false
  | some rest =>
    match SUFFIX.isSuffixOf? rest with
    | none => false
    | some rest =>
      let (date, tail) := match sliceTo rest 10, sliceFrom rest 10 with
        | some date, some tail => (date, tail)
        | _, _ => (rest, "invalid".toList)
      utf8Len date = 10 && dateOk date && tailOk tail

def tmpName (name : Name) : Name := '.' :: (name ++ TMP_SUFFIX)

def TMP_SIDECARS : List Name := ["-journal".toList, "-wal".toList, "-shm".toList]

def isTmpName (name : Name) : Bool :=
  let name := (TMP_SIDECARS.findSome? fun s => s.isSuffixOf? name).getD name
  match (['.'].isPrefixOf? name).bind (TMP_SUFFIX.isSuffixOf? ·) with
  | some n => isSnapshotName n
  | none => false

/-! What the two patterns accept. -/

/-- Digits and dashes where a date of four, two and two digits has them. -/
structure DateShaped (date : Name) : Prop where
  length : date.length = 10
  shape : ∀ (i : Nat) c, date[i]? = some c →
    if i = 4 ∨ i = 7 then c = '-' else c.isDigit = true

/-- Nothing, or a numeral behind the mark of an upgrade. -/
def TailShaped (tail : Name) : Prop :=
  tail = [] ∨ ∃ n, n ≠ [] ∧ (∀ c ∈ n, c.isDigit = true) ∧ tail = "-pre-v".toList ++ n

theorem isDigit_iff (c : Char) : c.isDigit = true ↔ 48 ≤ c.toNat ∧ c.toNat ≤ 57 :=
  Char.isDigit_iff_toNat

theorem isAsciiDigit_iff (b : UInt8) : isAsciiDigit b = true ↔ 48 ≤ b.toNat ∧ b.toNat ≤ 57 := by
  rw [isAsciiDigit, Bool.and_eq_true, decide_eq_true_eq, decide_eq_true_eq]

theorem ascii_of_isDigit {c : Char} (h : c.isDigit = true) : c.toNat < 128 := by
  have hrange := (isDigit_iff c).mp h
  omega

theorem all_isAsciiDigit (text : Name) :
    (utf8Bytes text).all isAsciiDigit = true ↔ ∀ c ∈ text, c.isDigit = true := by
  rw [List.all_eq_true]
  constructor
  · intro hbytes
    have hascii : ∀ c ∈ text, c.toNat < 128 := by
      apply ascii_of_utf8Bytes
      intro b hb
      have hrange := (isAsciiDigit_iff b).mp (hbytes b hb)
      omega
    intro c hc
    have hmem : c.toNat ∈ (utf8Bytes text).map UInt8.toNat :=
      map_utf8Bytes hascii ▸ List.mem_map_of_mem hc
    obtain ⟨b, hb, hcode⟩ := List.mem_map.mp hmem
    rw [isDigit_iff, ← hcode]
    exact (isAsciiDigit_iff b).mp (hbytes b hb)
  · intro hdigits b hb
    have hascii : ∀ c ∈ text, c.toNat < 128 := fun c hc => ascii_of_isDigit (hdigits c hc)
    have hmem : b.toNat ∈ text.map Char.toNat := map_utf8Bytes hascii ▸ List.mem_map_of_mem hb
    obtain ⟨c, hc, hcode⟩ := List.mem_map.mp hmem
    rw [isAsciiDigit_iff, ← hcode]
    exact (isDigit_iff c).mp (hdigits c hc)

theorem DateShaped.ascii {date : Name} (h : DateShaped date) : ∀ c ∈ date, c.toNat < 128 := by
  intro c hc
  obtain ⟨i, hi⟩ := List.mem_iff_getElem?.mp hc
  have hshape := h.shape i c hi
  by_cases hdash : i = 4 ∨ i = 7
  · rw [if_pos hdash] at hshape
    rw [hshape]
    decide
  · rw [if_neg hdash] at hshape
    exact ascii_of_isDigit hshape

/-- The test of the bytes is one of the characters. -/
theorem dateOk_iff (date : Name) : (utf8Len date = 10 ∧ dateOk date = true) ↔ DateShaped date := by
  have hbyte : ∀ (b : UInt8) (i : Nat),
      ((if i = 4 ∨ i = 7 then decide (b.toNat = 45) else isAsciiDigit b) = true) →
        b.toNat < 128 := by
    intro b i h
    by_cases hdash : i = 4 ∨ i = 7
    · rw [if_pos hdash, decide_eq_true_eq] at h
      omega
    · rw [if_neg hdash, isAsciiDigit_iff] at h
      omega
  constructor
  · intro h
    have hall : ∀ (i : Nat) b, (utf8Bytes date)[i]? = some b →
        (if i = 4 ∨ i = 7 then decide (b.toNat = 45) else isAsciiDigit b) = true := by
      intro i b hb
      exact List.all_eq_true.mp h.2 (b, i) (List.mem_zipIdx_iff_getElem?.mpr hb)
    have hascii : ∀ c ∈ date, c.toNat < 128 := by
      apply ascii_of_utf8Bytes
      intro b hb
      obtain ⟨i, hi⟩ := List.mem_iff_getElem?.mp hb
      exact hbyte b i (hall i b hi)
    refine ⟨utf8Len_ascii hascii ▸ h.1, ?_⟩
    intro i c hc
    have hcode : ((utf8Bytes date).map UInt8.toNat)[i]? = some c.toNat := by
      rw [map_utf8Bytes hascii, List.getElem?_map, hc, Option.map_some]
    rw [List.getElem?_map] at hcode
    obtain ⟨b, hb, hbc⟩ := Option.map_eq_some_iff.mp hcode
    have hok := hall i b hb
    by_cases hdash : i = 4 ∨ i = 7
    · rw [if_pos hdash, decide_eq_true_eq, hbc] at hok
      rw [if_pos hdash]
      exact Char.toNat_inj.mp hok
    · rw [if_neg hdash, isAsciiDigit_iff, hbc] at hok
      rw [if_neg hdash]
      exact (isDigit_iff c).mpr hok
  · intro h
    refine ⟨utf8Len_ascii h.ascii ▸ h.length, ?_⟩
    rw [dateOk, List.all_eq_true]
    intro (b, i) hb
    have hcode : (date.map Char.toNat)[i]? = some b.toNat := by
      rw [← map_utf8Bytes h.ascii, List.getElem?_map, List.mem_zipIdx_iff_getElem?.mp hb,
        Option.map_some]
    rw [List.getElem?_map] at hcode
    obtain ⟨c, hc, hcb⟩ := Option.map_eq_some_iff.mp hcode
    have hok := h.shape i c hc
    change (if i = 4 ∨ i = 7 then decide (b.toNat = 45) else isAsciiDigit b) = true
    by_cases hdash : i = 4 ∨ i = 7
    · rw [if_pos hdash] at hok
      rw [if_pos hdash, decide_eq_true_eq, ← hcb, hok]
      rfl
    · rw [if_neg hdash, isDigit_iff, hcb] at hok
      rw [if_neg hdash]
      exact (isAsciiDigit_iff b).mpr hok

theorem tailOk_iff (tail : Name) : tailOk tail = true ↔ TailShaped tail := by
  rw [tailOk, Bool.or_eq_true, List.isEmpty_iff, TailShaped]
  apply or_congr_right
  constructor
  · intro h
    cases hmark : "-pre-v".toList.isPrefixOf? tail with
    | none => rw [hmark] at h; cases h
    | some n =>
      rw [hmark, Bool.and_eq_true, all_isAsciiDigit, Bool.not_eq_true', List.isEmpty_eq_false_iff]
        at h
      exact ⟨n, h.1, h.2, (List.isPrefixOf?_eq_some_iff_append_eq.mp hmark).symm⟩
  · intro h
    obtain ⟨n, hne, hdigits, htail⟩ := h
    rw [List.isPrefixOf?_eq_some_iff_append_eq.mpr htail.symm]
    rw [Bool.and_eq_true, all_isAsciiDigit, Bool.not_eq_true', List.isEmpty_eq_false_iff]
    exact ⟨hne, hdigits⟩

/-- The pattern: `agend-`, a date, nothing or an upgrade, `.db`. -/
theorem isSnapshotName_iff (name : Name) : isSnapshotName name = true ↔
    ∃ date tail, DateShaped date ∧ TailShaped tail ∧
      name = PREFIX ++ (date ++ (tail ++ SUFFIX)) := by
  have hinvalid : tailOk "invalid".toList = false := by decide
  constructor
  · intro h
    rw [isSnapshotName] at h
    cases hstart : PREFIX.isPrefixOf? name with
    | none => rw [hstart] at h; cases h
    | some rest =>
      cases hsuffix : SUFFIX.isSuffixOf? rest with
      | none => simp only [hstart, hsuffix] at h; cases h
      | some inner =>
        simp only [hstart, hsuffix] at h
        have hname := List.isPrefixOf?_eq_some_iff_append_eq.mp hstart
        have hrest := List.isSuffixOf?_eq_some_iff_append_eq.mp hsuffix
        cases hto : sliceTo inner 10 with
        | none => simp only [hto, hinvalid, Bool.and_false, Bool.false_eq_true] at h
        | some date =>
          cases hfrom : sliceFrom inner 10 with
          | none => simp only [hto, hfrom, hinvalid, Bool.and_false, Bool.false_eq_true] at h
          | some tail =>
            simp only [hto, hfrom, Bool.and_eq_true, decide_eq_true_eq] at h
            have hcut := (append_of_slices hto hfrom).1
            refine ⟨date, tail, (dateOk_iff date).mp h.1, (tailOk_iff tail).mp h.2, ?_⟩
            rw [← hname, ← hrest, hcut, List.append_assoc]
  · intro h
    obtain ⟨date, tail, hdate, htail, hname⟩ := h
    have hstart : PREFIX.isPrefixOf? name = some (date ++ (tail ++ SUFFIX)) :=
      List.isPrefixOf?_eq_some_iff_append_eq.mpr hname.symm
    have hsuffix : SUFFIX.isSuffixOf? (date ++ (tail ++ SUFFIX)) = some (date ++ tail) :=
      List.isSuffixOf?_eq_some_iff_append_eq.mpr (List.append_assoc ..)
    have hdateOk := (dateOk_iff date).mpr hdate
    have hto := sliceTo_append date tail
    have hfrom := sliceFrom_append date tail
    rw [hdateOk.1] at hto hfrom
    simp only [isSnapshotName, hstart, hsuffix, hto, hfrom, Bool.and_eq_true, decide_eq_true_eq]
    exact ⟨hdateOk, (tailOk_iff tail).mpr htail⟩

/-- A text that ends with `t` does not end with `s`, where neither of them ends with the other. -/
theorem isSuffixOf?_eq_none {s t name : Name} (ht : t <:+ name) (hst : ¬ s <:+ t) (hts : ¬ t <:+ s) :
    s.isSuffixOf? name = none := by
  cases hstrip : s.isSuffixOf? name with
  | none => rfl
  | some rest =>
    have hs : s <:+ name := ⟨rest, List.isSuffixOf?_eq_some_iff_append_eq.mp hstrip⟩
    rcases List.suffix_or_suffix_of_suffix hs ht with h | h
    · exact absurd h hst
    · exact absurd h hts

/-- A snapshot's name with the dot and the suffix, and the suffix of a sidecar at most. -/
theorem isTmpName_iff (name : Name) : isTmpName name = true ↔
    ∃ snapshot sidecar, isSnapshotName snapshot = true ∧ (sidecar = [] ∨ sidecar ∈ TMP_SIDECARS) ∧
      name = tmpName snapshot ++ sidecar := by
  -- the part of the test behind the sidecar
  have hcore : ∀ name : Name, (match (['.'].isPrefixOf? name).bind (TMP_SUFFIX.isSuffixOf? ·) with
      | some n => isSnapshotName n
      | none => false) = true ↔
      ∃ snapshot, isSnapshotName snapshot = true ∧ name = tmpName snapshot := by
    intro name
    constructor
    · intro h
      cases hstrip : (['.'].isPrefixOf? name).bind (TMP_SUFFIX.isSuffixOf? ·) with
      | none => rw [hstrip] at h; cases h
      | some snapshot =>
        rw [hstrip] at h
        obtain ⟨rest, hdot, htmp⟩ := Option.bind_eq_some_iff.mp hstrip
        have hname := List.isPrefixOf?_eq_some_iff_append_eq.mp hdot
        have hrest := List.isSuffixOf?_eq_some_iff_append_eq.mp htmp
        exact ⟨snapshot, h, by rw [← hname, ← hrest]; rfl⟩
    · intro h
      obtain ⟨snapshot, hsnapshot, hname⟩ := h
      have hdot : ['.'].isPrefixOf? name = some (snapshot ++ TMP_SUFFIX) :=
        List.isPrefixOf?_eq_some_iff_append_eq.mpr hname.symm
      have htmp : TMP_SUFFIX.isSuffixOf? (snapshot ++ TMP_SUFFIX) = some snapshot :=
        List.isSuffixOf?_eq_some_iff_append_eq.mpr rfl
      simp only [hdot, Option.bind_some, htmp]
      exact hsnapshot
  rw [isTmpName]
  constructor
  · intro h
    obtain ⟨snapshot, hsnapshot, hname⟩ := (hcore _).mp h
    cases hfind : TMP_SIDECARS.findSome? fun s => s.isSuffixOf? name with
    | none =>
      rw [hfind, Option.getD_none] at hname
      exact ⟨snapshot, [], hsnapshot, .inl rfl, by rw [hname, List.append_nil]⟩
    | some rest =>
      rw [hfind, Option.getD_some] at hname
      obtain ⟨sidecar, hmem, hstrip⟩ := List.exists_of_findSome?_eq_some hfind
      have hrest := List.isSuffixOf?_eq_some_iff_append_eq.mp hstrip
      exact ⟨snapshot, sidecar, hsnapshot, .inr hmem, by rw [← hrest, hname]⟩
  · intro h
    obtain ⟨snapshot, sidecar, hsnapshot, hsidecar, hname⟩ := h
    apply (hcore _).mpr
    refine ⟨snapshot, hsnapshot, ?_⟩
    have hstrip : sidecar.isSuffixOf? name = some (tmpName snapshot) :=
      List.isSuffixOf?_eq_some_iff_append_eq.mpr hname.symm
    have hends : sidecar <:+ name := ⟨_, hname.symm⟩
    rcases hsidecar with hnone | hmem
    · have htmp : TMP_SUFFIX <:+ name := by
        rw [hname, hnone, List.append_nil]
        exact ⟨'.' :: snapshot, rfl⟩
      have hfind : (TMP_SIDECARS.findSome? fun s => s.isSuffixOf? name) = none := by
        rw [List.findSome?_eq_none_iff]
        intro s hs
        have happart : ∀ s ∈ TMP_SIDECARS, ¬ s <:+ TMP_SUFFIX ∧ ¬ TMP_SUFFIX <:+ s := by decide
        exact isSuffixOf?_eq_none htmp (happart s hs).1 (happart s hs).2
      rw [hfind, Option.getD_none, hname, hnone, List.append_nil]
    · have happart : ∀ s ∈ TMP_SIDECARS, ∀ t ∈ TMP_SIDECARS, s ≠ t → ¬ s <:+ t := by decide
      have hfind : (TMP_SIDECARS.findSome? fun s => s.isSuffixOf? name) =
          some (tmpName snapshot) := by
        have hall : ∀ s ∈ TMP_SIDECARS, s.isSuffixOf? name = some (tmpName snapshot) ∨
            s.isSuffixOf? name = none := by
          intro s hs
          by_cases heq : s = sidecar
          · exact .inl (heq ▸ hstrip)
          · exact .inr (isSuffixOf?_eq_none hends (happart s hs sidecar hmem heq)
              (happart sidecar hmem s hs (Ne.symm heq)))
        cases hfind : TMP_SIDECARS.findSome? fun s => s.isSuffixOf? name with
        | none =>
          rw [List.findSome?_eq_none_iff.mp hfind sidecar hmem] at hstrip
          cases hstrip
        | some found =>
          obtain ⟨s, hs, hfound⟩ := List.exists_of_findSome?_eq_some hfind
          rcases hall s hs with h | h
          · rw [← hfound, h]
          · rw [h] at hfound
            cases hfound
      rw [hfind, Option.getD_some]

theorem not_both (name : Name) : ¬ (isSnapshotName name = true ∧ isTmpName name = true) := by
  intro h
  obtain ⟨date, tail, _, _, hsnapshot⟩ := (isSnapshotName_iff name).mp h.1
  obtain ⟨snapshot, sidecar, _, _, htmp⟩ := (isTmpName_iff name).mp h.2
  rw [hsnapshot] at htmp
  exact absurd (List.cons.inj htmp).1 (by decide)

theorem dateShaped_dateText {date : Date} (hvalid : date.Valid) (hyear : date.year ≤ 9999) :
    DateShaped (dateText date) := by
  have hday := hvalid.day_le.trans (monthDays_le _ _)
  have hmonth := hvalid.month_le
  have hy : (padded 4 date.year).length = 4 := length_padded (by decide) (by omega)
  have hm : (padded 2 date.month).length = 2 := length_padded (by decide) (by omega)
  have hd : (padded 2 date.day).length = 2 := length_padded (by decide) (by omega)
  constructor
  · rw [dateText, List.length_append, List.length_cons, List.length_append, List.length_cons, hy, hm,
      hd]
  · intro i c hc
    rw [dateText, List.getElem?_append, hy] at hc
    by_cases hfour : i < 4
    · rw [if_pos hfour] at hc
      rw [if_neg (by omega)]
      exact isDigit_of_mem_padded (List.mem_of_getElem? hc)
    · rw [if_neg hfour, List.getElem?_cons] at hc
      by_cases hdash : i - 4 = 0
      · rw [if_pos hdash, Option.some_inj] at hc
        rw [if_pos (by omega), ← hc]
      · rw [if_neg hdash, List.getElem?_append, hm] at hc
        by_cases hseven : i - 4 - 1 < 2
        · rw [if_pos hseven] at hc
          rw [if_neg (by omega)]
          exact isDigit_of_mem_padded (List.mem_of_getElem? hc)
        · rw [if_neg hseven, List.getElem?_cons] at hc
          by_cases hdash' : i - 4 - 1 - 2 = 0
          · rw [if_pos hdash', Option.some_inj] at hc
            rw [if_pos (by omega), ← hc]
          · rw [if_neg hdash'] at hc
            rw [if_neg (by omega)]
            exact isDigit_of_mem_padded (List.mem_of_getElem? hc)

/-- Dates are compared as their texts. -/
theorem dateText_lt {a b : Date} (ha : a.Valid) (hb : b.Valid) (hyear : b.year ≤ 9999)
    (h : a < b) : dateText a < dateText b := by
  have hday := hb.day_le.trans (monthDays_le _ _)
  have hmonth := hb.month_le
  have hmonth' := ha.month_le
  rw [Date.lt_def] at h
  unfold dateText
  by_cases hy : a.year = b.year
  · rw [hy]
    apply List.append_left_lt
    apply List.Lex.cons
    by_cases hm : a.month = b.month
    · rw [hm]
      apply List.append_left_lt
      apply List.Lex.cons
      exact padded_lt (by decide) (by omega) (by omega)
    · apply append_lt_append
      · rw [length_padded (by decide) (by omega), length_padded (by decide) (by omega)]
      · exact padded_lt (by decide) (by omega) (by omega)
  · apply append_lt_append
    · rw [length_padded (by decide) (by omega), length_padded (by decide) (by omega)]
    · exact padded_lt (by decide) (by omega) (by omega)

theorem utcDate_eq (unixMs : Nat) : utcDate unixMs = dateText (Date.ofDays (unixMs / DAY_MS)) := by
  rw [utcDate, civilFromDays_ofDays]

/-- The clock is before the year 10000. -/
def FourDigits (unixMs : Nat) : Prop := (Date.ofDays (unixMs / DAY_MS)).year ≤ 9999

theorem dateShaped_utcDate {unixMs : Nat} (h : FourDigits unixMs) : DateShaped (utcDate unixMs) := by
  rw [utcDate_eq]
  exact dateShaped_dateText (Date.valid_ofDays _) h

/-- Later times have the same date or a later text. -/
theorem utcDate_mono {a b : Nat} (hb : FourDigits b) (h : a ≤ b) :
    utcDate a = utcDate b ∨ utcDate a < utcDate b := by
  rw [utcDate_eq, utcDate_eq]
  by_cases hsame : a / DAY_MS = b / DAY_MS
  · rw [hsame]
    exact .inl rfl
  · have hle : a / DAY_MS ≤ b / DAY_MS := Nat.div_le_div_right h
    have hlt := Date.ofDays_lt (m := a / DAY_MS) (n := b / DAY_MS) (by omega)
    exact .inr (dateText_lt (Date.valid_ofDays _) (Date.valid_ofDays _) hb hlt)

theorem dailyName_snapshot {unixMs : Nat} (h : FourDigits unixMs) :
    isSnapshotName (dailyName unixMs) = true :=
  (isSnapshotName_iff _).mpr ⟨utcDate unixMs, [], dateShaped_utcDate h, .inl rfl, rfl⟩

theorem preUpgradeName_snapshot {unixMs : Nat} (h : FourDigits unixMs) (toVersion : Nat) :
    isSnapshotName (preUpgradeName unixMs toVersion) = true := by
  have hne : toVersion.repr.toList ≠ [] := by
    rw [Nat.toList_repr]
    exact Nat.toDigits_ne_nil
  refine (isSnapshotName_iff _).mpr ⟨utcDate unixMs, "-pre-v".toList ++ toVersion.repr.toList,
    dateShaped_utcDate h, .inr ⟨_, hne, fun c hc => isDigit_of_mem_repr hc, rfl⟩, ?_⟩
  rw [preUpgradeName, List.append_assoc]

end Agend.Snapshots
