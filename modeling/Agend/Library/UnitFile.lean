import Mathlib.Data.List.Basic

/-! Unit files of systemd: lines, quoted words and specifiers, and the operands of env(1). What is
not read here (numeric escapes, specifiers but the percent sign, other prefixes) is refused. -/
namespace Agend.Library.UnitFile

abbrev Text := List Char

/-- One assignment under its section. -/
structure Directive where
  «section» : Text
  key : Text
  value : Text

/-- What has been read: the directives so far and the line under way, both in reverse. -/
structure Reader where
  «section» : Text
  directives : List Directive
  line : Text

def start : Reader := ⟨[], [], []⟩

def isBlank (c : Char) : Bool := c = ' ' || c = '\t'

/-- A line as it ends, without the blanks around it. -/
def endLine (σ : Reader) : Option Reader :=
  match (σ.line.dropWhile isBlank).reverse.dropWhile isBlank with
  | [] => some { σ with line := [] }
  | '#' :: _ => some { σ with line := [] }
  | ';' :: _ => some { σ with line := [] }
  | '[' :: rest =>
    if rest.getLast? = some ']' then some ⟨rest.dropLast, σ.directives, []⟩ else none
  | c :: rest =>
    let key := (c :: rest).takeWhile (· ≠ '=')
    match (c :: rest).dropWhile (· ≠ '=') with
    | '=' :: value =>
      some ⟨σ.section, ⟨σ.section, key, value.dropWhile isBlank⟩ :: σ.directives, []⟩
    | _ => none

/-- A backslash at its end continues a line. -/
def step (σ : Reader) (c : Char) : Option Reader :=
  if c = '\n' ∨ c = '\r' then
    match σ.line with
    | '\\' :: line => some { σ with line := ' ' :: line }
    | _ => endLine σ
  else some { σ with line := c :: σ.line }

def run : Option Reader → Text → Option Reader
  | none, _ => none
  | some σ, [] => some σ
  | some σ, c :: text => run (step σ c) text

def read (text : Text) : Option (List Directive) :=
  ((run (some start) text).bind endLine).map fun σ => σ.directives.reverse

/-! Words of a value. -/

structure Word where
  text : Text
  quoted : Bool

inductive Mode
  | between
  | bare (seen : Text)
  | quoted (quote : Char) (seen : Text)
  | closed (seen : Text)
  | escape (quote : Option Char) (seen : Text)

structure Splitter where
  words : List Word
  mode : Mode

/-- What an escape stands for. -/
def escaped (c : Char) : Option Char :=
  if c = '\\' ∨ c = '"' ∨ c = '\'' then some c
  else if c = 's' then some ' '
  else if c = 'n' then some '\n'
  else if c = 't' then some '\t'
  else none

/-- Quotes stand around a whole word, and an escape may stand anywhere in it. -/
def split (σ : Splitter) (c : Char) : Option Splitter :=
  match σ.mode with
  | .between =>
    if isBlank c then some σ
    else if c = '"' ∨ c = '\'' then some ⟨σ.words, .quoted c []⟩
    else if c = '\\' then some ⟨σ.words, .escape none []⟩
    else some ⟨σ.words, .bare [c]⟩
  | .bare seen =>
    if isBlank c then some ⟨⟨seen.reverse, false⟩ :: σ.words, .between⟩
    else if c = '"' ∨ c = '\'' then none
    else if c = '\\' then some ⟨σ.words, .escape none seen⟩
    else some ⟨σ.words, .bare (c :: seen)⟩
  | .quoted quote seen =>
    if c = quote then some ⟨σ.words, .closed seen⟩
    else if c = '\\' then some ⟨σ.words, .escape (some quote) seen⟩
    else some ⟨σ.words, .quoted quote (c :: seen)⟩
  | .closed seen =>
    if isBlank c then some ⟨⟨seen.reverse, true⟩ :: σ.words, .between⟩ else none
  | .escape none seen => (escaped c).map fun d => ⟨σ.words, .bare (d :: seen)⟩
  | .escape (some quote) seen => (escaped c).map fun d => ⟨σ.words, .quoted quote (d :: seen)⟩

def runSplit : Option Splitter → Text → Option Splitter
  | none, _ => none
  | some σ, [] => some σ
  | some σ, c :: value => runSplit (split σ c) value

def words (value : Text) : Option (List Word) :=
  match runSplit (some ⟨[], .between⟩) value with
  | some ⟨words, .between⟩ => some words.reverse
  | some ⟨words, .bare seen⟩ => some (⟨seen.reverse, false⟩ :: words).reverse
  | some ⟨words, .closed seen⟩ => some (⟨seen.reverse, true⟩ :: words).reverse
  | _ => none

/-- The percent sign is the one specifier that means the same everywhere. -/
def specifiers : Text → Option Text
  | [] => some []
  | '%' :: '%' :: rest => (specifiers rest).map ('%' :: ·)
  | '%' :: _ => none
  | c :: rest => (specifiers rest).map (c :: ·)

/-- A command line. A colon before it turns the expansion of variables off; with expansion on, a
dollar sign may mean anything. -/
def command (value : Text) : Option (List Text) := do
  let words ← words value
  if words.any fun word => !word.quoted && word.text = [';'] then none
  else match words with
    | ⟨':' :: program, quoted⟩ :: arguments =>
      (⟨program, quoted⟩ :: arguments).mapM fun word => specifiers word.text
    | _ =>
      if words.any fun word => '$' ∈ word.text then none
      else words.mapM fun word => specifiers word.text

/-- A name and a value around the first equals sign. -/
def assignment (text : Text) : Option (Text × Text) :=
  match text.dropWhile (· ≠ '=') with
  | '=' :: value => some (text.takeWhile (· ≠ '='), value)
  | _ => none

/-- The assignments of one environment line. -/
def environment (value : Text) : Option (List (Text × Text)) := do
  let words ← words value
  words.mapM fun word => (specifiers word.text).bind assignment

/-- A working directory is the rest of its line as it is, but for specifiers: an absolute path
without a part that goes up. -/
def directory (value : Text) : Option Text :=
  (specifiers value).bind fun path =>
    if path.head? = some '/' ∧ ∀ part ∈ path.splitOn '/', part ≠ ['.', '.'] then some path else none

/-- What env(1) runs: after its options, operands with an equals sign are assignments up to the
first one without. -/
def env (operands : List Text) : Option (List (Text × Text) × List Text) :=
  match operands with
  | ['-', '-'] :: operands =>
    match operands.dropWhile ('=' ∈ ·) with
    | [] => none
    | program =>
      ((operands.takeWhile ('=' ∈ ·)).mapM assignment).map (·, program)
  | _ => none

theorem env_of_dropWhile {operands rest : List Text} {program : Text}
    (h : operands.dropWhile ('=' ∈ ·) = program :: rest) :
    env (['-', '-'] :: operands) =
      ((operands.takeWhile ('=' ∈ ·)).mapM assignment).map (·, program :: rest) := by
  simp only [env, h]

theorem run_none (text : Text) : run none text = none := by
  cases text <;> rfl

@[simp] theorem run_append (σ : Option Reader) (a b : Text) :
    run σ (a ++ b) = run (run σ a) b := by
  induction a generalizing σ with
  | nil => cases σ <;> simp [run, run_none]
  | cons c a ih =>
    cases σ with
    | none => rw [run_none, run_none, run_none]
    | some σ => exact ih (step σ c)

/-- Pieces are read one after the other. -/
theorem run_flatten (σ : Option Reader) (pieces : List Text) :
    run σ pieces.flatten = pieces.foldl run σ := by
  induction pieces generalizing σ with
  | nil => cases σ <;> rfl
  | cons piece pieces ih => rw [List.flatten_cons, run_append, List.foldl_cons, ih]

theorem runSplit_none (value : Text) : runSplit none value = none := by
  cases value <;> rfl

@[simp] theorem runSplit_append (σ : Option Splitter) (a b : Text) :
    runSplit σ (a ++ b) = runSplit (runSplit σ a) b := by
  induction a generalizing σ with
  | nil => cases σ <;> simp [runSplit, runSplit_none]
  | cons c a ih =>
    cases σ with
    | none => rw [runSplit_none, runSplit_none, runSplit_none]
    | some σ => exact ih (split σ c)

/-- A text without an end of line goes on with the line. -/
theorem run_line {text : Text} (h : ∀ c ∈ text, c ≠ '\n' ∧ c ≠ '\r') (σ : Reader) :
    run (some σ) text = some { σ with line := text.reverse ++ σ.line } := by
  induction text generalizing σ with
  | nil => rfl
  | cons c text ih =>
    have hc := h c (List.mem_cons_self ..)
    have hstep : step σ c = some { σ with line := c :: σ.line } := by
      rw [step, if_neg (by simp [hc.1, hc.2])]
    change run (step σ c) text = _
    rw [hstep, ih fun d hd => h d (List.mem_cons_of_mem _ hd), List.reverse_cons,
      List.append_assoc]
    rfl

theorem isBlank_ne_of_isAlpha {c : Char} (h : c.isAlpha = true) :
    isBlank c = false ∧ c ≠ '=' ∧ c ≠ '#' ∧ c ≠ ';' ∧ c ≠ '[' := by
  refine ⟨?_, ?_, ?_, ?_, ?_⟩
  · rw [isBlank, Bool.or_eq_false_iff, decide_eq_false_iff_not, decide_eq_false_iff_not]
    constructor <;> intro heq <;> rw [heq] at h <;> exact absurd h (by decide)
  all_goals intro heq; rw [heq] at h; exact absurd h (by decide)

/-- Such a line is read as the value without more, where no blank stands at its ends. -/
theorem endLine_assignment {σ : Reader} {c : Char} {key value : Text}
    (hline : σ.line = (c :: key ++ '=' :: value).reverse)
    (hkey : ∀ d ∈ c :: key, d.isAlpha = true) (hfirst : ∀ d ∈ value.head?, isBlank d = false)
    (hlast : ∀ d ∈ value.getLast?, isBlank d = false) :
    endLine σ = some ⟨σ.section, ⟨σ.section, c :: key, value⟩ :: σ.directives, []⟩ := by
  have htrim : σ.line.dropWhile isBlank = σ.line := by
    rw [hline, List.reverse_append, List.reverse_cons]
    cases hreverse : value.reverse with
    | nil => rfl
    | cons d rest =>
      have hd : d ∈ value.getLast? := by
        rw [List.getLast?_eq_head?_reverse, hreverse]
        rfl
      rw [List.cons_append, List.cons_append, List.dropWhile_cons, hlast d hd]
      rfl
  have hc := isBlank_ne_of_isAlpha (hkey c (List.mem_cons_self ..))
  have hletters : ∀ d ∈ c :: key, (d != '=') = true := by
    intro d hd
    rw [bne_iff_ne]
    exact (isBlank_ne_of_isAlpha (hkey d hd)).2.1
  have htake : (c :: key ++ '=' :: value).takeWhile (· ≠ '=') = c :: key := by
    rw [List.takeWhile_append_of_pos (by simpa using hletters)]
    simp
  have hdrop : (c :: key ++ '=' :: value).dropWhile (· ≠ '=') = '=' :: value := by
    rw [List.dropWhile_append_of_pos (by simpa using hletters)]
    simp
  have hvalue : value.dropWhile isBlank = value := by
    cases value with
    | nil => rfl
    | cons d rest => rw [List.dropWhile_cons, hfirst d rfl]; rfl
  have hwhole : (σ.line.dropWhile isBlank).reverse.dropWhile isBlank = c :: key ++ '=' :: value := by
    rw [htrim, hline, List.reverse_reverse, List.cons_append, List.dropWhile_cons, hc.1]
    rfl
  rw [endLine, hwhole, List.cons_append]
  split
  · cases ‹_ :: _ = []›
  · rename_i heq
    exact absurd (List.cons.inj heq).1 hc.2.2.1
  · rename_i heq
    exact absurd (List.cons.inj heq).1 hc.2.2.2.1
  · rename_i heq
    exact absurd (List.cons.inj heq).1 hc.2.2.2.2
  · rename_i heq
    obtain ⟨hhead, htail⟩ := List.cons.inj heq
    rw [← hhead, ← htail, ← List.cons_append]
    simp only [htake, hdrop, hvalue]

/-- The reader goes over such a line to the rest of the text. -/
theorem run_assignment {«section» : Text} {directives : List Directive} {c : Char}
    {key value : Text} (hkey : ∀ d ∈ c :: key, d.isAlpha = true)
    (hvalue : ∀ d ∈ value, d ≠ '\n' ∧ d ≠ '\r') (hfirst : ∀ d ∈ value.head?, isBlank d = false)
    (hlast : ∀ d ∈ value.getLast?, isBlank d = false ∧ d ≠ '\\') (rest : Text) :
    run (some ⟨«section», directives, []⟩) ((c :: key ++ ['=']) ++ (value ++ (['\n'] ++ rest))) =
      run (some ⟨«section», ⟨«section», c :: key, value⟩ :: directives, []⟩) rest := by
  have hplain : ∀ d ∈ c :: key ++ '=' :: value, d ≠ '\n' ∧ d ≠ '\r' := by
    intro d hd
    rcases List.mem_append.mp hd with hletter | hrest
    · have hd := hkey d hletter
      constructor <;> intro heq <;> rw [heq] at hd <;> exact absurd hd (by decide)
    · rcases List.mem_cons.mp hrest with heq | hmem
      · rw [heq]
        decide
      · exact hvalue d hmem
  have hsplit : (c :: key ++ ['=']) ++ (value ++ (['\n'] ++ rest)) =
      (c :: key ++ '=' :: value) ++ ('\n' :: rest) := by
    rw [List.append_assoc, List.append_assoc]
    rfl
  rw [hsplit, run_append, run_line hplain]
  have hend := endLine_assignment (σ := ⟨«section», directives,
    (c :: key ++ '=' :: value).reverse ++ []⟩) (List.append_nil _) hkey hfirst
    fun d hd => (hlast d hd).1
  have hstep : step ⟨«section», directives, (c :: key ++ '=' :: value).reverse ++ []⟩ '\n' =
      some ⟨«section», ⟨«section», c :: key, value⟩ :: directives, []⟩ := by
    rw [step, if_pos (.inl rfl), ← hend]
    split
    · rename_i rest heq
      have hback : (c :: key ++ '=' :: value).getLast? = some '\\' := by
        rw [List.getLast?_eq_head?_reverse, ← List.append_nil (List.reverse _)]
        exact congrArg List.head? heq
      exfalso
      rw [List.getLast?_append, List.getLast?_cons] at hback
      cases hvalueLast : value.getLast? with
      | none =>
        rw [hvalueLast] at hback
        have heq : '=' = '\\' := Option.some.inj hback
        exact absurd heq (by decide)
      | some d =>
        rw [hvalueLast] at hback
        have hd : d = '\\' := Option.some.inj hback
        exact (hlast d hvalueLast).2 hd
    · rfl
  rw [run, hstep]

/-- The same over pieces of a text. -/
theorem foldl_assignment {«section» : Text} {directives : List Directive} (c : Char)
    (key : Text) (values : List Text) (hkey : ∀ d ∈ c :: key, d.isAlpha = true)
    (hvalue : ∀ d ∈ values.flatten, d ≠ '\n' ∧ d ≠ '\r')
    (hfirst : ∀ d ∈ values.flatten.head?, isBlank d = false)
    (hlast : ∀ d ∈ values.flatten.getLast?, isBlank d = false ∧ d ≠ '\\') (rest : List Text) :
    ((c :: key ++ ['=']) :: (values ++ ['\n'] :: rest)).foldl run (some ⟨«section», directives, []⟩) =
      rest.foldl run (some ⟨«section», ⟨«section», c :: key, values.flatten⟩ :: directives, []⟩) := by
  rw [← run_flatten, ← run_flatten, ← run_assignment hkey hvalue hfirst hlast]
  rw [List.flatten_cons, List.flatten_append, List.flatten_cons]

/-- A text that is written one character after the other stands between quotes as the text. -/
theorem runSplit_flatMap (write : Char → Text) (quote : Char) (text : Text)
    (h : ∀ c ∈ text, ∀ words seen,
      runSplit (some ⟨words, .quoted quote seen⟩) (write c) = some ⟨words, .quoted quote (c :: seen)⟩)
    (words : List Word) (seen : Text) :
    runSplit (some ⟨words, .quoted quote seen⟩) (text.flatMap write) =
      some ⟨words, .quoted quote (text.reverse ++ seen)⟩ := by
  induction text generalizing seen with
  | nil => rfl
  | cons c text ih =>
    rw [List.flatMap_cons, runSplit_append, h c (List.mem_cons_self ..),
      ih (fun d hd => h d (List.mem_cons_of_mem _ hd)), List.reverse_cons, List.append_assoc]
    rfl

/-- Doubled percent signs are read as one. -/
theorem specifiers_append (text rest : Text) :
    specifiers (text.flatMap (fun c => if c = '%' then ['%', '%'] else [c]) ++ rest) =
      (specifiers rest).map (text ++ ·) := by
  induction text with
  | nil => simp
  | cons c text ih =>
    rw [List.flatMap_cons]
    by_cases hc : c = '%'
    · rw [if_pos hc, List.append_assoc, hc]
      change (specifiers (text.flatMap _ ++ rest)).map _ = _
      rw [ih, Option.map_map]
      rfl
    · rw [if_neg hc, List.append_assoc, List.singleton_append, specifiers]
      · rw [ih, Option.map_map]
        rfl
      · intro d hd
        exact absurd hd hc
      · intro hd
        exact absurd hd hc

end Agend.Library.UnitFile
