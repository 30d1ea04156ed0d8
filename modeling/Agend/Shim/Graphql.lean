import Agend.Library.Graphql
import Agend.Library.Utf8

/-! The guard of `gh api graphql`: whether a query names a mutation that merges or reviews.

Characters stand by their codes: 10 and 13 end a line, 34 is the quote, 35 the hash sign and 92 the
backslash. -/
namespace Agend.Shim

open Library

section

-- bytes of the query in the source, characters below
variable {α : Type} (code : α → Nat)

/-- A comment goes up to the end of its line. -/
def afterComment : List α → List α
  | [] => []
  | b :: rest => if code b = 13 ∨ code b = 10 then b :: rest else afterComment rest

def startsWithCodes (codes : List Nat) (l : List α) : Bool := codes.isPrefixOf (l.map code)

/-- A block string escapes nothing but three quotes. -/
def afterBlock : List α → List α
  | [] => []
  | b :: rest =>
    if startsWithCodes code [92, 34, 34, 34] (b :: rest) then afterBlock (rest.drop 3)
    else if startsWithCodes code [34, 34, 34] (b :: rest) then rest.drop 2
    else afterBlock rest
termination_by l => l.length
decreasing_by all_goals simp only [List.length_drop, List.length_cons]; omega

/-- In a string an escape takes what follows with it. -/
def afterString : List α → List α
  | [] => []
  | b :: rest =>
    if code b = 92 then afterString (rest.drop 1)
    else if code b = 34 then rest
    else afterString rest
termination_by l => l.length
decreasing_by all_goals simp only [List.length_drop, List.length_cons]; omega

theorem afterComment_suffix (l : List α) : afterComment code l <:+ l := by
  induction l with
  | nil => exact List.suffix_rfl
  | cons b rest ih =>
    rw [afterComment]
    split
    · exact List.suffix_rfl
    · exact ih.trans (List.suffix_cons b rest)

theorem afterBlock_suffix (l : List α) : afterBlock code l <:+ l := by
  induction l using @afterBlock.induct _ code with
  | case1 => simp [afterBlock]
  | case2 b rest hescape ih =>
    rw [afterBlock, if_pos hescape]
    exact (ih.trans (List.drop_suffix 3 rest)).trans (List.suffix_cons b rest)
  | case3 b rest hescape hclose =>
    rw [afterBlock, if_neg hescape, if_pos hclose]
    exact (List.drop_suffix 2 rest).trans (List.suffix_cons b rest)
  | case4 b rest hescape hclose ih =>
    rw [afterBlock, if_neg hescape, if_neg hclose]
    exact ih.trans (List.suffix_cons b rest)

theorem afterString_suffix (l : List α) : afterString code l <:+ l := by
  induction l using @afterString.induct _ code with
  | case1 => simp [afterString]
  | case2 b rest hescape ih =>
    rw [afterString, if_pos hescape]
    exact (ih.trans (List.drop_suffix 1 rest)).trans (List.suffix_cons b rest)
  | case3 b rest hescape hclose =>
    rw [afterString, if_neg hescape, if_pos hclose]
    exact List.suffix_cons b rest
  | case4 b rest hescape hclose ih =>
    rw [afterString, if_neg hescape, if_neg hclose]
    exact ih.trans (List.suffix_cons b rest)

/-- Bytes of longer characters are none of those that the loops look for. -/
theorem afterComment_high (high rest : List α) (h : ∀ b ∈ high, 128 ≤ code b) :
    afterComment code (high ++ rest) = afterComment code rest := by
  induction high with
  | nil => rfl
  | cons b high ih =>
    have hb := h b (List.mem_cons_self ..)
    have hline : ¬ (code b = 13 ∨ code b = 10) := by omega
    rw [List.cons_append, afterComment, if_neg hline]
    exact ih fun b hb => h b (List.mem_cons_of_mem _ hb)

theorem startsWithCodes_cons (n : Nat) (codes : List Nat) (b : α) (rest : List α) :
    startsWithCodes code (n :: codes) (b :: rest) =
      (n == code b && startsWithCodes code codes rest) := rfl

theorem afterBlock_high (high rest : List α) (h : ∀ b ∈ high, 128 ≤ code b) :
    afterBlock code (high ++ rest) = afterBlock code rest := by
  induction high with
  | nil => rfl
  | cons b high ih =>
    have hb := h b (List.mem_cons_self ..)
    have hother : ∀ (n : Nat) (codes : List Nat), n < 128 →
        ¬ startsWithCodes code (n :: codes) (b :: (high ++ rest)) = true := by
      intro n codes hn hstarts
      rw [startsWithCodes_cons, Bool.and_eq_true, beq_iff_eq] at hstarts
      omega
    rw [List.cons_append, afterBlock, if_neg (hother 92 _ (by omega)),
      if_neg (hother 34 _ (by omega))]
    exact ih fun b hb => h b (List.mem_cons_of_mem _ hb)

theorem afterString_high (high rest : List α) (h : ∀ b ∈ high, 128 ≤ code b) :
    afterString code (high ++ rest) = afterString code rest := by
  induction high with
  | nil => rfl
  | cons b high ih =>
    have hb := h b (List.mem_cons_self ..)
    rw [List.cons_append, afterString, if_neg (by omega), if_neg (by omega)]
    exact ih fun b hb => h b (List.mem_cons_of_mem _ hb)

end

/-- An underscore or a letter. -/
def nameStart (n : Nat) : Bool := n = 95 || (97 ≤ n && n ≤ 122) || (65 ≤ n && n ≤ 90)

def nameContinue (n : Nat) : Bool := nameStart n || (48 ≤ n && n ≤ 57)

def guardedNames : List String :=
  ["mergePullRequest", "enablePullRequestAutoMerge", "enqueuePullRequest", "mergeBranch",
    "addPullRequestReview", "submitPullRequestReview"]

/-- The loop over the bytes that are left of a query; none is a panic, as a slice of the query that
is not between characters would be. -/
def guardedFrom (query : List Char) : List UInt8 → Option Bool
  | [] => some false
  | b :: rest =>
    if b.toNat = 35 then guardedFrom query (afterComment UInt8.toNat rest)
    else if b.toNat = 34 then
      if startsWithCodes UInt8.toNat [34, 34] rest then
        guardedFrom query (afterBlock UInt8.toNat (rest.drop 2))
      else guardedFrom query (afterString UInt8.toNat rest)
    else if nameStart b.toNat then
      let behind := rest.dropWhile (nameContinue ·.toNat)
      let start := utf8Len query - (rest.length + 1)
      let stop := utf8Len query - behind.length
      match slice query start stop with
      | none => none
      | some name =>
        if String.ofList name ∈ guardedNames then some true else guardedFrom query behind
    else guardedFrom query rest
termination_by l => l.length
decreasing_by
  · exact Nat.lt_succ_of_le (afterComment_suffix _ rest).length_le
  · exact Nat.lt_succ_of_le
      ((afterBlock_suffix _ _).trans (List.drop_suffix 2 rest)).length_le
  · exact Nat.lt_succ_of_le (afterString_suffix _ rest).length_le
  · exact Nat.lt_succ_of_le (List.dropWhile_suffix _).length_le
  · exact Nat.lt_succ_self _

def guardedGraphql (query : String) : Option Bool :=
  guardedFrom query.toList (utf8Bytes query.toList)

/-- The same loop over characters. -/
def scan : List Char → Bool
  | [] => false
  | c :: rest =>
    if c.toNat = 35 then scan (afterComment Char.toNat rest)
    else if c.toNat = 34 then
      if startsWithCodes Char.toNat [34, 34] rest then scan (afterBlock Char.toNat (rest.drop 2))
      else scan (afterString Char.toNat rest)
    else if nameStart c.toNat then
      if String.ofList (c :: rest.takeWhile (nameContinue ·.toNat)) ∈ guardedNames then true
      else scan (rest.dropWhile (nameContinue ·.toNat))
    else scan rest
termination_by l => l.length
decreasing_by
  · exact Nat.lt_succ_of_le (afterComment_suffix _ rest).length_le
  · exact Nat.lt_succ_of_le
      ((afterBlock_suffix _ _).trans (List.drop_suffix 2 rest)).length_le
  · exact Nat.lt_succ_of_le (afterString_suffix _ rest).length_le
  · exact Nat.lt_succ_of_le (List.dropWhile_suffix _).length_le
  · exact Nat.lt_succ_self _

/-! The bytes of a text are scanned as its characters are: bytes of other than ASCII characters are
passed over one by one. -/

theorem afterComment_utf8 (text : List Char) :
    afterComment UInt8.toNat (utf8Bytes text) = utf8Bytes (afterComment Char.toNat text) := by
  induction text with
  | nil => rfl
  | cons c text ih =>
    rw [afterComment]
    by_cases hc : c.toNat < 128
    · obtain ⟨b, hbytes, hb⟩ := utf8Bytes_ascii hc text
      rw [hbytes, afterComment, hb, ih]
      split
      · rw [hbytes]
      · rfl
    · rw [utf8Bytes_cons, afterComment_high _ _ _ (utf8EncodeChar_high (Nat.le_of_not_lt hc)), ih,
        if_neg (by omega)]

/-- A pattern of ASCII characters stands at the same places. -/
theorem startsWithCodes_utf8 (codes : List Nat) (hcodes : ∀ n ∈ codes, n < 128) (text : List Char) :
    startsWithCodes UInt8.toNat codes (utf8Bytes text) = startsWithCodes Char.toNat codes text := by
  induction codes generalizing text with
  | nil => simp [startsWithCodes]
  | cons n codes ih =>
    have hn := hcodes n (List.mem_cons_self ..)
    cases text with
    | nil => rfl
    | cons c text =>
      rw [startsWithCodes_cons]
      by_cases hc : c.toNat < 128
      · obtain ⟨b, hbytes, hb⟩ := utf8Bytes_ascii hc text
        rw [hbytes, startsWithCodes_cons, hb, ih fun n hn => hcodes n (List.mem_cons_of_mem _ hn)]
      · obtain ⟨b, more, hbytes, hb, _⟩ := utf8Bytes_high (Nat.le_of_not_lt hc) text
        have hbyte : (n == b.toNat) = false := beq_false_of_ne (by omega)
        have hchar : (n == c.toNat) = false := beq_false_of_ne (by omega)
        rw [hbytes, startsWithCodes_cons, hbyte, hchar, Bool.false_and, Bool.false_and]

/-- Behind such a pattern the bytes are those of the characters behind it. -/
theorem drop_utf8 (codes : List Nat) (hcodes : ∀ n ∈ codes, n < 128) (text : List Char)
    (h : startsWithCodes Char.toNat codes text = true) :
    (utf8Bytes text).drop codes.length = utf8Bytes (text.drop codes.length) := by
  induction codes generalizing text with
  | nil => rfl
  | cons n codes ih =>
    cases text with
    | nil => rfl
    | cons c text =>
      rw [startsWithCodes_cons, Bool.and_eq_true, beq_iff_eq] at h
      have hc : c.toNat < 128 := h.1 ▸ hcodes n (List.mem_cons_self ..)
      obtain ⟨b, hbytes, _⟩ := utf8Bytes_ascii hc text
      rw [hbytes, List.length_cons, List.drop_succ_cons, List.drop_succ_cons]
      exact ih (fun n hn => hcodes n (List.mem_cons_of_mem _ hn)) text h.2

theorem afterBlock_utf8 (text : List Char) :
    afterBlock UInt8.toNat (utf8Bytes text) = utf8Bytes (afterBlock Char.toNat text) := by
  have hescape : ∀ n ∈ [92, 34, 34, 34], n < 128 := by decide
  have hquotes : ∀ n ∈ [34, 34, 34], n < 128 := by decide
  induction text using @afterBlock.induct _ Char.toNat with
  | case1 => simp [afterBlock]
  | case2 c text hstarts ih =>
    have hdrop := drop_utf8 _ hescape (c :: text) hstarts
    rw [afterBlock, if_pos hstarts, ← ih]
    rw [← startsWithCodes_utf8 _ hescape] at hstarts
    cases hbytes : utf8Bytes (c :: text) with
    | nil => rw [hbytes] at hstarts; exact absurd hstarts (by decide)
    | cons b rest =>
      rw [hbytes] at hstarts hdrop
      rw [afterBlock, if_pos hstarts]
      exact congrArg _ hdrop
  | case3 c text hnot hstarts =>
    have hdrop := drop_utf8 _ hquotes (c :: text) hstarts
    rw [afterBlock, if_neg hnot, if_pos hstarts]
    rw [← startsWithCodes_utf8 _ hescape] at hnot
    rw [← startsWithCodes_utf8 _ hquotes] at hstarts
    cases hbytes : utf8Bytes (c :: text) with
    | nil => rw [hbytes] at hstarts; exact absurd hstarts (by decide)
    | cons b rest =>
      rw [hbytes] at hstarts hdrop hnot
      rw [afterBlock, if_neg hnot, if_pos hstarts]
      exact hdrop
  | case4 c text hnot hopen ih =>
    rw [afterBlock, if_neg hnot, if_neg hopen]
    by_cases hc : c.toNat < 128
    · obtain ⟨b, hbytes, _⟩ := utf8Bytes_ascii hc text
      rw [← startsWithCodes_utf8 _ hescape, hbytes] at hnot
      rw [← startsWithCodes_utf8 _ hquotes, hbytes] at hopen
      rw [hbytes, afterBlock, if_neg hnot, if_neg hopen, ih]
    · rw [utf8Bytes_cons, afterBlock_high _ _ _ (utf8EncodeChar_high (Nat.le_of_not_lt hc)), ih]

theorem afterString_utf8 (text : List Char) :
    afterString UInt8.toNat (utf8Bytes text) = utf8Bytes (afterString Char.toNat text) := by
  induction text using @afterString.induct _ Char.toNat with
  | case1 => simp [afterString]
  | case2 c text hescape ih =>
    obtain ⟨b, hbytes, hb⟩ := utf8Bytes_ascii (c := c) (by omega) text
    rw [hbytes, afterString, if_pos (hb.trans hescape), afterString, if_pos hescape, ← ih]
    -- of a longer character the escape takes the first byte only
    cases text with
    | nil => rfl
    | cons d text =>
      rw [List.drop_succ_cons, List.drop_zero]
      by_cases hd : d.toNat < 128
      · obtain ⟨e, hbytes, _⟩ := utf8Bytes_ascii hd text
        rw [hbytes, List.drop_succ_cons, List.drop_zero]
      · obtain ⟨e, more, hbytes, _, hmore⟩ := utf8Bytes_high (Nat.le_of_not_lt hd) text
        rw [hbytes, List.drop_succ_cons, List.drop_zero]
        exact afterString_high _ more _ hmore
  | case3 c text hescape hclose =>
    obtain ⟨b, hbytes, hb⟩ := utf8Bytes_ascii (c := c) (by omega) text
    rw [hbytes, afterString, if_neg (by omega), if_pos (hb.trans hclose), afterString,
      if_neg hescape, if_pos hclose]
  | case4 c text hescape hclose ih =>
    rw [afterString, if_neg hescape, if_neg hclose]
    by_cases hc : c.toNat < 128
    · obtain ⟨b, hbytes, hb⟩ := utf8Bytes_ascii hc text
      rw [hbytes, afterString, if_neg (by omega), if_neg (by omega), ih]
    · rw [utf8Bytes_cons, afterString_high _ _ _ (utf8EncodeChar_high (Nat.le_of_not_lt hc)), ih]

theorem not_nameContinue_of_high {n : Nat} (h : 128 ≤ n) : nameContinue n = false := by
  simp only [nameContinue, nameStart, Bool.or_eq_false_iff, Bool.and_eq_false_iff,
    decide_eq_false_iff_not]
  omega

theorem not_nameStart_of_high {n : Nat} (h : 128 ≤ n) : nameStart n = false :=
  (Bool.or_eq_false_iff.mp (not_nameContinue_of_high h)).1

theorem ascii_of_nameStart {n : Nat} (h : nameStart n = true) : n < 128 := by
  by_contra hhigh
  rw [not_nameStart_of_high (Nat.le_of_not_lt hhigh)] at h
  exact Bool.false_ne_true h

theorem dropWhile_utf8 (text : List Char) :
    (utf8Bytes text).dropWhile (nameContinue ·.toNat) =
      utf8Bytes (text.dropWhile (nameContinue ·.toNat)) := by
  induction text with
  | nil => rfl
  | cons c text ih =>
    by_cases hc : c.toNat < 128
    · obtain ⟨b, hbytes, hb⟩ := utf8Bytes_ascii hc text
      rw [hbytes, List.dropWhile_cons, List.dropWhile_cons, hb, ih]
      split
      · rfl
      · rw [hbytes]
    · obtain ⟨b, more, hbytes, hb, _⟩ := utf8Bytes_high (Nat.le_of_not_lt hc) text
      have hchar := not_nameContinue_of_high (Nat.le_of_not_lt hc)
      have hbyte := not_nameContinue_of_high hb
      rw [List.dropWhile_cons, if_neg (by simp [hchar]), hbytes, List.dropWhile_cons,
        if_neg (by simp [hbyte])]

theorem guardedFrom_high (query : List Char) (high rest : List UInt8)
    (h : ∀ b ∈ high, 128 ≤ b.toNat) :
    guardedFrom query (high ++ rest) = guardedFrom query rest := by
  induction high with
  | nil => rfl
  | cons b high ih =>
    have hb := h b (List.mem_cons_self ..)
    have hname := not_nameStart_of_high hb
    rw [List.cons_append, guardedFrom, if_neg (by omega), if_neg (by omega), if_neg (by simp [hname])]
    exact ih fun b hb => h b (List.mem_cons_of_mem _ hb)

/-- The slice of a name, from its first byte to the first one behind it. -/
theorem slice_name (query text : List Char) (c : Char) (hc : c.toNat < 128) (p : Char → Bool)
    (hsuffix : c :: text <:+ query) :
    slice query (utf8Len query - (utf8Len text + 1))
      (utf8Len query - utf8Len (text.dropWhile p)) = some (c :: text.takeWhile p) := by
  obtain ⟨before, hquery⟩ := hsuffix
  have htext := List.takeWhile_append_dropWhile (p := p) (l := text)
  have hsize : c.utf8Size = 1 := by
    obtain ⟨b, hencode, _⟩ := utf8EncodeChar_ascii hc
    rw [← String.length_utf8EncodeChar c, hencode, List.length_singleton]
  have hlen : utf8Len text = utf8Len (text.takeWhile p) + utf8Len (text.dropWhile p) := by
    rw [← utf8Len_append, htext]
  have hslice := slice_append before (c :: text.takeWhile p) (text.dropWhile p)
  rw [List.cons_append, htext, hquery, utf8Len_cons] at hslice
  rw [← hslice, ← hquery, utf8Len_append, utf8Len_cons, hsize]
  congr 1
  · omega
  · omega

/-- No slice panics, and the bytes that are left of a query are scanned as the characters. -/
theorem guardedFrom_utf8 (query text : List Char) (hsuffix : text <:+ query) :
    guardedFrom query (utf8Bytes text) = some (scan text) := by
  have hopen : ∀ n ∈ [34, 34], n < 128 := by decide
  induction text using scan.induct with
  | case1 => rw [utf8Bytes_nil, guardedFrom, scan]
  | case2 c text hhash ih =>
    obtain ⟨b, hbytes, hb⟩ := utf8Bytes_ascii (c := c) (by omega) text
    have hrest := (List.suffix_cons c text).trans hsuffix
    rw [hbytes, guardedFrom, if_pos (hb.trans hhash), scan, if_pos hhash, afterComment_utf8]
    exact ih ((afterComment_suffix _ text).trans hrest)
  | case3 c text hhash hquote hblock ih =>
    obtain ⟨b, hbytes, hb⟩ := utf8Bytes_ascii (c := c) (by omega) text
    have hrest := (List.suffix_cons c text).trans hsuffix
    have hdrop := drop_utf8 _ hopen text hblock
    rw [List.length_cons, List.length_singleton] at hdrop
    rw [hbytes, guardedFrom, if_neg (by omega), if_pos (hb.trans hquote),
      startsWithCodes_utf8 _ hopen, if_pos hblock, hdrop, afterBlock_utf8, scan, if_neg hhash,
      if_pos hquote, if_pos hblock]
    exact ih ((afterBlock_suffix _ _).trans ((List.drop_suffix 2 text).trans hrest))
  | case4 c text hhash hquote hblock ih =>
    obtain ⟨b, hbytes, hb⟩ := utf8Bytes_ascii (c := c) (by omega) text
    have hrest := (List.suffix_cons c text).trans hsuffix
    rw [hbytes, guardedFrom, if_neg (by omega), if_pos (hb.trans hquote),
      startsWithCodes_utf8 _ hopen, if_neg hblock, afterString_utf8, scan, if_neg hhash,
      if_pos hquote, if_neg hblock]
    exact ih ((afterString_suffix _ text).trans hrest)
  | case5 c text hhash hquote hname hguarded =>
    have hc := ascii_of_nameStart hname
    obtain ⟨b, hbytes, hb⟩ := utf8Bytes_ascii hc text
    rw [hbytes, guardedFrom, if_neg (by omega), if_neg (by omega), if_pos (hb ▸ hname),
      dropWhile_utf8]
    simp only [length_utf8Bytes, slice_name query text c hc _ hsuffix]
    rw [scan, if_neg hhash, if_neg hquote, if_pos hname, if_pos hguarded,
      if_pos hguarded]
  | case6 c text hhash hquote hname hguarded ih =>
    have hc := ascii_of_nameStart hname
    obtain ⟨b, hbytes, hb⟩ := utf8Bytes_ascii hc text
    have hrest := (List.suffix_cons c text).trans hsuffix
    rw [hbytes, guardedFrom, if_neg (by omega), if_neg (by omega), if_pos (hb ▸ hname),
      dropWhile_utf8]
    simp only [length_utf8Bytes, slice_name query text c hc _ hsuffix]
    rw [scan, if_neg hhash, if_neg hquote, if_pos hname, if_neg hguarded,
      if_neg hguarded]
    exact ih ((List.dropWhile_suffix _).trans hrest)
  | case7 c text hhash hquote hname ih =>
    have hrest := (List.suffix_cons c text).trans hsuffix
    rw [scan, if_neg hhash, if_neg hquote, if_neg hname, ← ih hrest]
    by_cases hc : c.toNat < 128
    · obtain ⟨b, hbytes, hb⟩ := utf8Bytes_ascii hc text
      rw [hbytes, guardedFrom, if_neg (by omega), if_neg (by omega), if_neg (hb ▸ hname)]
    · rw [utf8Bytes_cons]
      exact guardedFrom_high _ _ _ (utf8EncodeChar_high (Nat.le_of_not_lt hc))

theorem guardedGraphql_eq (query : String) : guardedGraphql query = some (scan query.toList) :=
  guardedFrom_utf8 _ _ List.suffix_rfl

/-! The scan reads the tokens of the lexical grammar. -/

open Graphql

theorem nameStart_iff (c : Char) : nameStart c.toNat = true ↔ NameStart c := by
  have hle : ∀ a b : Char, a ≤ b ↔ a.toNat ≤ b.toNat := fun a b => UInt32.le_iff_toNat_le
  have hunderscore : c = '_' ↔ c.toNat = 95 := (Char.toNat_inj (d := '_')).symm
  simp only [nameStart, NameStart, Bool.or_eq_true, Bool.and_eq_true, decide_eq_true_eq,
    hunderscore, hle, or_assoc]
  rfl

theorem nameContinue_iff (c : Char) : nameContinue c.toNat = true ↔ NameContinue c := by
  have hle : ∀ a b : Char, a ≤ b ↔ a.toNat ≤ b.toNat := fun a b => UInt32.le_iff_toNat_le
  simp only [nameContinue, NameContinue, Digit, Bool.or_eq_true, Bool.and_eq_true,
    decide_eq_true_eq, nameStart_iff, hle]
  rfl

/-- Characters that the scan only steps over. -/
def Plain (c : Char) : Prop := c.toNat ≠ 35 ∧ c.toNat ≠ 34 ∧ nameStart c.toNat = false

instance : DecidablePred Plain := fun c =>
  inferInstanceAs (Decidable (c.toNat ≠ 35 ∧ c.toNat ≠ 34 ∧ nameStart c.toNat = false))

theorem scan_plain (text rest : List Char) (h : ∀ c ∈ text, Plain c) :
    scan (text ++ rest) = scan rest := by
  induction text with
  | nil => rfl
  | cons c text ih =>
    have hc := h c (List.mem_cons_self ..)
    rw [List.cons_append, scan, if_neg hc.1, if_neg hc.2.1, if_neg (by simp [hc.2.2])]
    exact ih fun c hc => h c (List.mem_cons_of_mem _ hc)

theorem plain_of_digit {c : Char} (h : Digit c) : Plain c := by
  have hlow : 48 ≤ c.toNat := UInt32.le_iff_toNat_le.mp h.1
  have hhigh : c.toNat ≤ 57 := UInt32.le_iff_toNat_le.mp h.2
  refine ⟨by omega, by omega, ?_⟩
  simp only [nameStart, Bool.or_eq_false_iff, Bool.and_eq_false_iff, decide_eq_false_iff_not]
  omega

theorem scan_name (c : Char) (more rest : List Char) (hc : NameStart c)
    (hmore : ∀ c ∈ more, NameContinue c) (hrest : Ends NameContinue rest) :
    scan (c :: (more ++ rest)) =
      if String.ofList (c :: more) ∈ guardedNames then true else scan rest := by
  have hstart := (nameStart_iff c).mpr hc
  have hascii := ascii_of_nameStart hstart
  have hcontinue : ∀ c ∈ more, nameContinue c.toNat = true :=
    fun c hc => (nameContinue_iff c).mpr (hmore c hc)
  have hstop : rest.takeWhile (nameContinue ·.toNat) = [] ∧
      rest.dropWhile (nameContinue ·.toNat) = rest := by
    cases rest with
    | nil => exact ⟨rfl, rfl⟩
    | cons d rest =>
      have hd : nameContinue d.toNat = false := by
        rw [Bool.eq_false_iff, ne_eq, nameContinue_iff]
        exact hrest d rfl
      simp [hd]
  have hhash : c.toNat ≠ 35 := by
    intro h
    rw [h] at hstart
    exact absurd hstart (by decide)
  have hquote : c.toNat ≠ 34 := by
    intro h
    rw [h] at hstart
    exact absurd hstart (by decide)
  rw [scan, if_neg hhash, if_neg hquote, if_pos hstart, List.takeWhile_append_of_pos hcontinue,
    List.dropWhile_append_of_pos hcontinue, hstop.1, hstop.2, List.append_nil]

theorem afterComment_line (text rest : List Char) (htext : ∀ c ∈ text, ¬ LineTerminator c)
    (hrest : Ends (¬ LineTerminator ·) rest) :
    afterComment Char.toNat (text ++ rest) = rest := by
  have hline : ∀ c : Char, (c.toNat = 13 ∨ c.toNat = 10) ↔ LineTerminator c := by
    intro c
    rw [LineTerminator, or_comm, ← Char.toNat_inj, ← Char.toNat_inj]
    rfl
  induction text with
  | nil =>
    cases rest with
    | nil => rfl
    | cons c rest =>
      rw [List.nil_append, afterComment, if_pos ((hline c).mpr (not_not.mp (hrest c rfl)))]
  | cons c text ih =>
    have hc := htext c (List.mem_cons_self ..)
    rw [List.cons_append, afterComment, if_neg (mt (hline c).mp hc)]
    exact ih fun c hc => htext c (List.mem_cons_of_mem _ hc)

theorem afterString_plain (text rest : List Char) (h : ∀ c ∈ text, c ≠ '\\' ∧ c ≠ '"') :
    afterString Char.toNat (text ++ rest) = afterString Char.toNat rest := by
  induction text with
  | nil => rfl
  | cons c text ih =>
    have hc := h c (List.mem_cons_self ..)
    have hslash : c.toNat ≠ 92 := fun heq => hc.1 (Char.toNat_inj.mp heq)
    have hquote : c.toNat ≠ 34 := fun heq => hc.2 (Char.toNat_inj.mp heq)
    rw [List.cons_append, afterString, if_neg hslash, if_neg hquote]
    exact ih fun c hc => h c (List.mem_cons_of_mem _ hc)

theorem afterString_escape (c : Char) (rest : List Char) :
    afterString Char.toNat ('\\' :: c :: rest) = afterString Char.toNat rest := by
  rw [afterString, if_pos (by decide), List.drop_succ_cons, List.drop_zero]

theorem ne_of_hexDigit {c : Char} (h : HexDigit c) : c ≠ '\\' ∧ c ≠ '"' := by
  constructor
  · intro heq
    rw [heq] at h
    exact absurd h (by unfold HexDigit Digit; decide)
  · intro heq
    rw [heq] at h
    exact absurd h (by unfold HexDigit Digit; decide)

theorem afterString_character (c rest : List Char) (h : StringCharacter c) :
    afterString Char.toNat (c ++ rest) = afterString Char.toNat rest := by
  cases h with
  | plain c hquote hslash hline =>
    apply afterString_plain
    intro d hd
    rw [List.mem_singleton.mp hd]
    exact ⟨hslash, hquote⟩
  | escaped c h => exact afterString_escape c rest
  | unicode digits hlength h =>
    rw [List.cons_append, List.cons_append, afterString_escape]
    exact afterString_plain digits rest fun c hc => ne_of_hexDigit (h c hc)
  | braced digits hdigits h =>
    rw [List.cons_append, List.cons_append, afterString_escape, List.cons_append]
    apply afterString_plain ('\x7b' :: (digits ++ ['\x7d'])) rest
    intro c hc
    rw [List.mem_cons, List.mem_append, List.mem_singleton] at hc
    rcases hc with hopen | hdigit | hclose
    · rw [hopen]; decide
    · exact ne_of_hexDigit (h c hdigit)
    · rw [hclose]; decide

theorem afterString_text (text rest : List Char) (h : StringText text) :
    afterString Char.toNat (text ++ '"' :: rest) = rest := by
  induction h with
  | nil => rw [List.nil_append, afterString, if_neg (by decide), if_pos (by decide)]
  | cons c text hc h ih => rw [List.append_assoc, afterString_character _ _ hc, ih]

/-- Characters start with a pattern as their codes do. -/
theorem startsWithCodes_iff (pattern text : List Char) :
    startsWithCodes Char.toNat (pattern.map Char.toNat) text = true ↔ pattern <+: text := by
  rw [startsWithCodes, List.isPrefixOf_iff_prefix]
  constructor
  · intro h
    have htake := List.prefix_iff_eq_take.mp h
    rw [List.length_map, ← List.map_take] at htake
    rw [List.prefix_iff_eq_take]
    exact List.map_injective_iff.mpr (fun _ _ => Char.toNat_inj.mp) htake
  · intro h
    exact h.map _

theorem afterBlock_text (text rest : List Char) (h : BlockText text rest) :
    afterBlock Char.toNat text = rest := by
  have hescape : ∀ text, startsWithCodes Char.toNat [92, 34, 34, 34] text = true ↔
      '\\' :: quotes <+: text := startsWithCodes_iff ('\\' :: quotes)
  have hquotes : ∀ text, startsWithCodes Char.toNat [34, 34, 34] text = true ↔
      quotes <+: text := startsWithCodes_iff quotes
  induction h with
  | close rest =>
    have hnot : ¬ '\\' :: quotes <+: '"' :: '"' :: '"' :: rest := by
      intro h
      exact absurd (List.cons_prefix_cons.mp h).1 (by decide)
    have hopen : quotes <+: '"' :: '"' :: '"' :: rest := List.prefix_append quotes rest
    change afterBlock _ ('"' :: '"' :: '"' :: rest) = rest
    rw [afterBlock, if_neg (mt (hescape _).mp hnot), if_pos ((hquotes _).mpr hopen)]
    rfl
  | escaped text rest h ih =>
    have hopen : '\\' :: quotes <+: '\\' :: (quotes ++ text) :=
      List.prefix_append ('\\' :: quotes) text
    rw [afterBlock, if_pos ((hescape _).mpr hopen)]
    exact ih
  | plain c text rest hopen hnot h ih =>
    rw [afterBlock, if_neg (mt (hescape _).mp hnot), if_neg (mt (hquotes _).mp hopen), ih]

theorem scan_digits (text rest : List Char) (h : ∀ c ∈ text, Digit c) :
    scan (text ++ rest) = scan rest :=
  scan_plain text rest fun c hc => plain_of_digit (h c hc)

/-- The one letter of a number starts a name that is not guarded. -/
theorem scan_exponent (text rest : List Char) (h : ExponentPart text)
    (hrest : Ends NameContinue rest) : scan (text ++ rest) = scan rest := by
  have hexponent : ∀ e, e = 'e' ∨ e = 'E' → NameStart e := by
    intro e he
    rcases he with he | he <;> rw [he] <;> unfold NameStart <;> decide
  have hshort : ∀ e, e = 'e' ∨ e = 'E' → String.ofList [e] ∉ guardedNames := by
    intro e he
    rcases he with he | he <;> rw [he] <;> decide
  cases h with
  | none => rfl
  | plain e text he h =>
    obtain ⟨hnil, hdigits⟩ := h
    cases text with
    | nil => exact absurd rfl hnil
    | cons d text =>
      have hd := hdigits d (List.mem_cons_self ..)
      -- no guarded name has a digit for its second letter
      have hname : String.ofList (e :: d :: text) ∉ guardedNames := by
        intro hmem
        have hsecond : ∀ name ∈ guardedNames, name.toList[1]?.all (fun c => ¬ Digit c) = true := by
          decide
        have hnot := (Option.all_eq_true _ _).mp (hsecond _ hmem) d
          (by rw [String.toList_ofList]; rfl)
        exact of_decide_eq_true hnot hd
      rw [List.cons_append,
        scan_name e (d :: text) rest (hexponent e he) (fun c hc => .inr (hdigits c hc)) hrest,
        if_neg hname]
  | signed e sign text he hsign h =>
    have hplain : Plain sign := by
      rcases hsign with hsign | hsign <;> rw [hsign] <;> unfold Plain <;> decide
    have hends : Ends NameContinue (sign :: (text ++ rest)) := by
      intro c hc
      rw [List.head?_cons, Option.mem_some_iff] at hc
      rw [← hc]
      rcases hsign with hsign | hsign <;> rw [hsign] <;>
        unfold NameContinue NameStart Digit <;> decide
    have hname := scan_name e [] (sign :: (text ++ rest)) (hexponent e he)
      (fun c hc => absurd hc List.not_mem_nil) hends
    have hsigned := scan_plain [sign] (text ++ rest) fun c hc => List.mem_singleton.mp hc ▸ hplain
    rw [List.cons_append, List.cons_append, ← List.nil_append (sign :: _), hname,
      if_neg (hshort e he)]
    exact hsigned.trans (scan_digits text rest h.2)

theorem scan_number (text rest : List Char) (h : Number text) (hrest : Ends NameContinue rest) :
    scan (text ++ rest) = scan rest := by
  cases h with
  | mk sign integer fraction exponent hsign hinteger hfraction hexponent =>
    have hminus : ∀ c ∈ sign, Plain c := by
      intro c hc
      rcases hsign with hsign | hsign
      · rw [hsign] at hc
        exact absurd hc List.not_mem_nil
      · rw [hsign, List.mem_singleton] at hc
        rw [hc]
        unfold Plain
        decide
    have hwhole : ∀ c ∈ integer, Digit c := by
      cases hinteger with
      | zero =>
        intro c hc
        rw [List.mem_singleton.mp hc]
        unfold Digit
        decide
      | digits d more hd _ hmore =>
        intro c hc
        rcases List.mem_cons.mp hc with hc | hc
        · rw [hc]
          exact hd
        · exact hmore c hc
    have hpoint : ∀ c ∈ fraction, Plain c := by
      cases hfraction with
      | none => intro c hc; exact absurd hc List.not_mem_nil
      | digits text h =>
        intro c hc
        rcases List.mem_cons.mp hc with hc | hc
        · rw [hc]
          unfold Plain
          decide
        · exact plain_of_digit (h.2 c hc)
    rw [List.append_assoc, scan_plain _ _ hminus, List.append_assoc, scan_digits _ _ hwhole,
      List.append_assoc, scan_plain _ _ hpoint, scan_exponent _ _ hexponent hrest]

/-- A query that is valid by its tokens is scanned token by token. -/
theorem scan_iff (text : List Char) (tokens : List Token) (h : Lexes text tokens) :
    scan text = true ↔ ∃ name ∈ guardedNames, Token.name name ∈ tokens := by
  -- a token that is no name changes nothing
  have hskip : ∀ (token : Token) (tokens : List Token), (∀ name, Token.name name ≠ token) →
      ((∃ name ∈ guardedNames, Token.name name ∈ token :: tokens) ↔
        ∃ name ∈ guardedNames, Token.name name ∈ tokens) := by
    intro token tokens hother
    simp [hother]
  induction h with
  | nil => simp [scan]
  | blank c rest tokens hc h ih =>
    have hplain : ∀ c ∈ blanks, Plain c := List.all_iff_forall_prop.mp (by decide)
    have hscan := scan_plain [c] rest fun d hd => List.mem_singleton.mp hd ▸ hplain c hc
    rw [List.singleton_append] at hscan
    rw [hscan]
    exact ih
  | comment text rest tokens htext hrest h ih =>
    rw [scan, if_pos (by decide), afterComment_line text rest htext hrest]
    exact ih
  | punctuator text rest tokens htext h ih =>
    have hplain : ∀ text ∈ punctuators, text.all (fun c => Plain c) = true := by decide
    rw [scan_plain _ _ (List.all_iff_forall_prop.mp (hplain text htext)),
      hskip _ _ (fun _ => Token.noConfusion)]
    exact ih
  | name c more rest tokens hc hmore hrest h ih =>
    rw [scan_name c more rest hc hmore hrest]
    by_cases hguarded : String.ofList (c :: more) ∈ guardedNames
    · rw [if_pos hguarded]
      exact iff_of_true rfl ⟨_, hguarded, List.mem_cons_self ..⟩
    · rw [if_neg hguarded]
      refine ih.trans ?_
      constructor
      · intro hfound
        obtain ⟨name, hname, hmem⟩ := hfound
        exact ⟨name, hname, List.mem_cons_of_mem _ hmem⟩
      · intro hfound
        obtain ⟨name, hname, hmem⟩ := hfound
        rcases List.mem_cons.mp hmem with heq | hmem
        · rw [Token.name.injEq] at heq
          exact absurd (heq ▸ hname) hguarded
        · exact ⟨name, hname, hmem⟩
  | number text rest tokens htext hrest h ih =>
    have hends : Ends NameContinue rest := fun c hc hname => hrest c hc (.inl hname)
    rw [scan_number text rest htext hends, hskip _ _ (fun _ => Token.noConfusion)]
    exact ih
  | emptyString rest tokens hrest h ih =>
    have hblock : ¬ startsWithCodes Char.toNat [34, 34] ('"' :: rest) = true := by
      intro hstarts
      have hprefix : ['"', '"'] <+: '"' :: rest := (startsWithCodes_iff ['"', '"'] _).mp hstarts
      cases rest with
      | nil => exact absurd hprefix.length_le (by decide)
      | cons d rest =>
        have hd := (List.cons_prefix_cons.mp (List.cons_prefix_cons.mp hprefix).2).1
        exact hrest d rfl hd.symm
    rw [scan, if_neg (by decide), if_pos (by decide), if_neg hblock, afterString,
      if_neg (by decide), if_pos (by decide), hskip _ _ (fun _ => Token.noConfusion)]
    exact ih
  | string text rest tokens hempty htext h ih =>
    have hblock : ¬ startsWithCodes Char.toNat [34, 34] (text ++ '"' :: rest) = true := by
      intro hstarts
      have hprefix := (startsWithCodes_iff ['"', '"'] _).mp hstarts
      cases text with
      | nil => exact hempty rfl
      | cons c text =>
        have hc := (List.cons_prefix_cons.mp hprefix).1
        exact htext.head_ne_quote c rfl hc.symm
    rw [scan, if_neg (by decide), if_pos (by decide), if_neg hblock, afterString_text _ _ htext,
      hskip _ _ (fun _ => Token.noConfusion)]
    exact ih
  | blockString text rest tokens htext h ih =>
    change scan ('"' :: '"' :: '"' :: text) = true ↔ _
    rw [scan, if_neg (by decide), if_pos (by decide), if_pos (by rfl)]
    rw [List.drop_succ_cons, List.drop_succ_cons, List.drop_zero, afterBlock_text _ _ htext,
      hskip _ _ (fun _ => Token.noConfusion)]
    exact ih

/-- The guard ends without a panic on every query, and where the query is valid by its tokens it
finds a guarded mutation exactly when one of them is its name. -/
theorem guardedGraphql_exact (query : String) :
    (∃ found, guardedGraphql query = some found) ∧
      ∀ tokens, Lexes query.toList tokens →
        (guardedGraphql query = some true ↔ ∃ name ∈ guardedNames, Token.name name ∈ tokens) := by
  constructor
  · exact ⟨_, guardedGraphql_eq query⟩
  · intro tokens htokens
    rw [guardedGraphql_eq, Option.some_inj]
    exact scan_iff _ tokens htokens

/-- `{mergeBranch}` is a name between two punctuators. -/
theorem guardedGraphql_exact_braced :
    guardedGraphql (String.ofList ('\x7b' :: ("mergeBranch".toList ++ ['\x7d']))) = some true := by
  have hclose : Lexes ['\x7d'] [.punctuator ['\x7d']] :=
    .punctuator ['\x7d'] [] [] (by decide) .nil
  have hname : Lexes ("mergeBranch".toList ++ ['\x7d'])
      [.name "mergeBranch", .punctuator ['\x7d']] := by
    have hends : Ends NameContinue ['\x7d'] := by
      intro c hc
      rw [← Option.mem_some_iff.mp hc]
      unfold NameContinue NameStart Digit
      decide
    exact .name 'm' "ergeBranch".toList ['\x7d'] _ (by unfold NameStart; decide)
      (List.all_iff_forall_prop.mp (by decide)) hends hclose
  have hopen : Lexes ('\x7b' :: ("mergeBranch".toList ++ ['\x7d']))
      [.punctuator ['\x7b'], .name "mergeBranch", .punctuator ['\x7d']] :=
    .punctuator ['\x7b'] _ _ (by decide) hname
  have hlexes := (guardedGraphql_exact (String.ofList _)).2 _ (by rwa [String.toList_ofList])
  exact hlexes.mpr ⟨"mergeBranch", by decide, by simp⟩

end Agend.Shim
