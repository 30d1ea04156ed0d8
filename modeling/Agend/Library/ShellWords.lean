import Mathlib.Data.List.Basic
import Mathlib.Tactic.ByContra
import Mathlib.Tactic.SplitIfs

/-! How a POSIX shell cuts a command into words: quotes, escapes and comments. A text may have
holes; a value is put into one as a quoted word. -/
namespace Agend.Library.Shell

inductive Symbol (ν : Type*)
  | char (c : Char)
  | hole (n : ν)
deriving DecidableEq

/-- One character of a word, by the quoting it stands in. Only a plain one and one in double
quotes may still mean something to the shell. -/
inductive Part (ν : Type*)
  | plain (c : Char)
  | literal (c : Char)
  | dquoted (c : Char)
  | hole (n : ν)
  | quotedHole (n : ν)
deriving DecidableEq

inductive Token (ν : Type*)
  | word (parts : List (Part ν))
  | blank (c : Char)
  | newline
  | operator (c : Char)
deriving DecidableEq

inductive Mode
  | unquoted
  | escape
  | single
  | double
  | doubleEscape
  | comment
deriving DecidableEq

/-- The word under way is none between two words, and empty after an empty pair of quotes. -/
structure Lexer (ν : Type*) where
  mode : Mode
  tokens : List (Token ν)
  word : Option (List (Part ν))
deriving DecidableEq

def operators : List Char := [';', '&', '|', '<', '>', '(', ')']

/-- The characters that a backslash takes the meaning of inside double quotes. -/
def dquoteEscapes : List Char := ['$', Char.ofNat 96, '"', '\\']

section

variable {ν : Type*}

def start : Lexer ν := ⟨.unquoted, [], none⟩

namespace Lexer

def flush (σ : Lexer ν) : Lexer ν :=
  match σ.word with
  | none => σ
  | some parts => { σ with tokens := σ.tokens ++ [.word parts], word := none }

def push (σ : Lexer ν) (t : Token ν) : Lexer ν := { σ with tokens := σ.tokens ++ [t] }

def emit (σ : Lexer ν) (t : Token ν) : Lexer ν := σ.flush.push t

def addAll (σ : Lexer ν) (parts : List (Part ν)) : Lexer ν :=
  { σ with word := some (σ.word.getD [] ++ parts) }

def add (σ : Lexer ν) (part : Part ν) : Lexer ν := σ.addAll [part]

def enter (σ : Lexer ν) (mode : Mode) : Lexer ν := { σ with mode := mode }

def readUnquoted (σ : Lexer ν) (c : Char) : Lexer ν :=
  if c = '\'' then (σ.addAll []).enter .single
  else if c = '"' then (σ.addAll []).enter .double
  else if c = '\\' then σ.enter .escape
  else if c = '#' ∧ σ.word = none then σ.enter .comment
  else if c = '\n' then σ.emit .newline
  else if c = ' ' ∨ c = '\t' then σ.emit (.blank c)
  else if c ∈ operators then σ.emit (.operator c)
  else σ.add (.plain c)

def read (σ : Lexer ν) (c : Char) : Lexer ν :=
  match σ.mode with
  | .unquoted => σ.readUnquoted c
  -- an escaped newline joins two lines
  | .escape => if c = '\n' then σ.enter .unquoted else (σ.add (.literal c)).enter .unquoted
  | .single => if c = '\'' then σ.enter .unquoted else σ.add (.literal c)
  | .double =>
    if c = '"' then σ.enter .unquoted
    else if c = '\\' then σ.enter .doubleEscape
    else σ.add (.dquoted c)
  | .doubleEscape =>
    if c = '\n' then σ.enter .double
    else if c ∈ dquoteEscapes then (σ.add (.literal c)).enter .double
    else (σ.addAll [.dquoted '\\', .dquoted c]).enter .double
  | .comment => if c = '\n' then (σ.emit .newline).enter .unquoted else σ

/-- A hole is read as the letters of an ordinary word are. -/
def readHole (σ : Lexer ν) (n : ν) : Lexer ν :=
  match σ.mode with
  | .unquoted => σ.add (.hole n)
  | .escape => (σ.add (.quotedHole n)).enter .unquoted
  | .single | .double => σ.add (.quotedHole n)
  | .doubleEscape => (σ.addAll [.dquoted '\\', .quotedHole n]).enter .double
  | .comment => σ

def step (σ : Lexer ν) : Symbol ν → Lexer ν
  | .char c => σ.read c
  | .hole n => σ.readHole n

def run (σ : Lexer ν) (text : List (Symbol ν)) : Lexer ν := text.foldl step σ

@[simp] theorem run_nil (σ : Lexer ν) : σ.run [] = σ := rfl

@[simp] theorem run_cons (σ : Lexer ν) (s : Symbol ν) (text : List (Symbol ν)) :
    σ.run (s :: text) = (σ.step s).run text := rfl

@[simp] theorem run_append (σ : Lexer ν) (text text' : List (Symbol ν)) :
    σ.run (text ++ text') = (σ.run text).run text' := List.foldl_append

@[simp] theorem step_char (σ : Lexer ν) (c : Char) : σ.step (.char c) = σ.read c := rfl

@[simp] theorem step_hole (σ : Lexer ν) (n : ν) : σ.step (.hole n) = σ.readHole n := rfl

@[simp] theorem enter_mode (σ : Lexer ν) (mode : Mode) : (σ.enter mode).mode = mode := rfl

@[simp] theorem enter_tokens (σ : Lexer ν) (mode : Mode) : (σ.enter mode).tokens = σ.tokens := rfl

theorem enter_of_mode {σ : Lexer ν} {mode : Mode} (h : σ.mode = mode) : σ.enter mode = σ := by
  rw [← h]
  rfl

@[simp] theorem addAll_mode (σ : Lexer ν) (parts : List (Part ν)) :
    (σ.addAll parts).mode = σ.mode := rfl

@[simp] theorem addAll_tokens (σ : Lexer ν) (parts : List (Part ν)) :
    (σ.addAll parts).tokens = σ.tokens := rfl

@[simp] theorem add_mode (σ : Lexer ν) (part : Part ν) : (σ.add part).mode = σ.mode := rfl

@[simp] theorem add_tokens (σ : Lexer ν) (part : Part ν) : (σ.add part).tokens = σ.tokens := rfl

@[simp] theorem flush_mode (σ : Lexer ν) : σ.flush.mode = σ.mode := by
  unfold flush
  split <;> rfl

@[simp] theorem emit_mode (σ : Lexer ν) (t : Token ν) : (σ.emit t).mode = σ.mode := by
  simp [emit, push]

theorem flush_tokens_le (σ : Lexer ν) : σ.tokens.length ≤ σ.flush.tokens.length := by
  unfold flush
  split <;> simp

theorem emit_tokens_le (σ : Lexer ν) (t : Token ν) :
    σ.tokens.length + 1 ≤ (σ.emit t).tokens.length := by
  have hflush := σ.flush_tokens_le
  simp only [emit, push, List.length_append, List.length_singleton]
  omega

end Lexer

/-- What the shell makes of a text, and where it stands at the end. -/
structure Lexed (ν : Type*) where
  tokens : List (Token ν)
  mode : Mode
deriving DecidableEq

def Lexer.finish (σ : Lexer ν) : Lexed ν := ⟨σ.flush.tokens, σ.mode⟩

def lex (text : List (Symbol ν)) : Lexed ν := (start.run text).finish

/-! Putting the values in, before and after the text is cut. -/

/-- A value as one single-quoted word; a quote leaves the quotes for an escaped one. -/
def quote (value : List Char) : List Char :=
  '\'' :: (value.flatMap fun c => if c = '\'' then ['\'', '\\', '\'', '\''] else [c]) ++ ['\'']

/-- Characters as symbols; such a text has no holes. -/
def chars (text : List Char) : List (Symbol ν) := text.map .char

def expand (value : ν → List Char) (text : List (Symbol ν)) : List (Symbol ν) :=
  text.flatMap fun
    | .char c => [.char c]
    | .hole n => chars (quote (value n))

def Part.inject (value : ν → List Char) : Part ν → List (Part ν)
  | .hole n | .quotedHole n => (value n).map .literal
  | part => [part]

def Token.inject (value : ν → List Char) : Token ν → Token ν
  | .word parts => .word (parts.flatMap (Part.inject value))
  | t => t

def Lexed.inject (value : ν → List Char) (l : Lexed ν) : Lexed ν :=
  { l with tokens := l.tokens.map (Token.inject value) }

namespace Lexer

def inject (value : ν → List Char) (σ : Lexer ν) : Lexer ν :=
  { σ with
    tokens := σ.tokens.map (Token.inject value)
    word := σ.word.map (List.flatMap (Part.inject value)) }

variable (value : ν → List Char) (σ : Lexer ν)

@[simp] theorem inject_mode : (σ.inject value).mode = σ.mode := rfl

@[simp] theorem inject_enter (mode : Mode) :
    (σ.enter mode).inject value = (σ.inject value).enter mode := rfl

@[simp] theorem inject_word_eq_none : (σ.inject value).word = none ↔ σ.word = none := by
  simp [inject]

theorem inject_addAll (parts : List (Part ν)) :
    (σ.addAll parts).inject value =
      (σ.inject value).addAll (parts.flatMap (Part.inject value)) := by
  cases h : σ.word <;> simp [inject, addAll, h]

theorem inject_flush : σ.flush.inject value = (σ.inject value).flush := by
  cases h : σ.word <;> simp [inject, flush, h, Token.inject]

theorem inject_emit (t : Token ν) (ht : t.inject value = t) :
    (σ.emit t).inject value = (σ.inject value).emit t := by
  rw [emit, emit, ← inject_flush]
  simp [inject, push, ht]

theorem inject_finish : (σ.inject value).finish = σ.finish.inject value := by
  simp only [finish, ← inject_flush]
  simp [inject, Lexed.inject]

/-- A character means the same to the shell with the values put in. -/
theorem inject_read (c : Char) : (σ.read c).inject value = (σ.inject value).read c := by
  cases h : σ.mode with
  | unquoted =>
    simp only [read, h, inject_mode, readUnquoted, inject_word_eq_none]
    split_ifs
    · simp [inject_addAll]
    · simp [inject_addAll]
    · simp
    · simp
    · exact inject_emit value σ _ rfl
    · exact inject_emit value σ _ rfl
    · exact inject_emit value σ _ rfl
    · simp [add, inject_addAll, Part.inject]
  | escape =>
    simp only [read, h, inject_mode]
    split_ifs
    · simp
    · simp [add, inject_addAll, Part.inject]
  | single =>
    simp only [read, h, inject_mode]
    split_ifs
    · simp
    · simp [add, inject_addAll, Part.inject]
  | double =>
    simp only [read, h, inject_mode]
    split_ifs
    · simp
    · simp
    · simp [add, inject_addAll, Part.inject]
  | doubleEscape =>
    simp only [read, h, inject_mode]
    split_ifs
    · simp
    · simp [add, inject_addAll, Part.inject]
    · simp [inject_addAll, Part.inject]
  | comment =>
    simp only [read, h, inject_mode]
    split_ifs
    · simp [inject_emit value σ .newline rfl]
    · rfl

end Lexer

section

variable {value : ν → List Char} {σ : Lexer ν}

@[simp] theorem chars_append (text text' : List Char) :
    (chars (text ++ text') : List (Symbol ν)) = chars text ++ chars text' :=
  List.map_append

@[simp] theorem chars_cons (c : Char) (text : List Char) :
    (chars (c :: text) : List (Symbol ν)) = .char c :: chars text := rfl

@[simp] theorem chars_nil : (chars [] : List (Symbol ν)) = [] := rfl

/-- The inside of a quoted value, up to the quote that ends it. -/
theorem run_quoted (tokens : List (Token ν)) (word : List (Part ν)) (text : List Char) :
    (Lexer.mk .single tokens (some word)).run (chars ((text.flatMap fun c =>
      if c = '\'' then ['\'', '\\', '\'', '\''] else [c]) ++ ['\''])) =
      ⟨.unquoted, tokens, some (word ++ text.map .literal)⟩ := by
  induction text generalizing word with
  | nil => simp [Lexer.read, Lexer.enter]
  | cons c text ih =>
    have hnext : (Lexer.mk .single tokens (some word)).run
        (chars (if c = '\'' then ['\'', '\\', '\'', '\''] else [c])) =
          ⟨.single, tokens, some (word ++ [.literal c])⟩ := by
      split
      · simp [*, Lexer.read, Lexer.readUnquoted, Lexer.enter, Lexer.add, Lexer.addAll]
      · simp [*, Lexer.read, Lexer.add, Lexer.addAll]
    rw [List.flatMap_cons, List.append_assoc, chars_append, Lexer.run_append, hnext, ih,
      List.map_cons, List.append_assoc, List.singleton_append]

/-- Outside quotes a quoted value is its own characters and nothing else. -/
theorem run_quote (hmode : σ.mode = .unquoted) (text : List Char) :
    σ.run (chars (quote text)) = σ.addAll (text.map .literal) := by
  have hopen : σ.read '\'' = ⟨.single, σ.tokens, some (σ.word.getD [])⟩ := by
    simp [Lexer.read, hmode, Lexer.readUnquoted, Lexer.enter, Lexer.addAll]
  rw [quote, List.cons_append, chars_cons, Lexer.run_cons, Lexer.step_char, hopen, run_quoted,
    Lexer.addAll, hmode]

/-- Every hole of the text is met outside quotes, escapes and comments. -/
def Open (σ : Lexer ν) : List (Symbol ν) → Prop
  | [] => True
  | .char c :: text => Open (σ.read c) text
  | .hole n :: text => σ.mode = .unquoted ∧ Open (σ.readHole n) text

/-- No `#` of the text is the start of a comment. -/
def NoComment (σ : Lexer ν) : List (Symbol ν) → Prop
  | [] => True
  | s :: text => (σ.step s).mode ≠ .comment ∧ NoComment (σ.step s) text

instance decidableNoComment : (σ : Lexer ν) → (text : List (Symbol ν)) →
    Decidable (NoComment σ text)
  | _, [] => inferInstanceAs (Decidable True)
  | σ, s :: text =>
    have := decidableNoComment (σ.step s) text
    inferInstanceAs (Decidable (_ ≠ _ ∧ _))

theorem open_iff {text : List (Symbol ν)} : Open σ text ↔
    ∀ before n after, text = before ++ .hole n :: after → (σ.run before).mode = .unquoted := by
  induction text generalizing σ with
  | nil => simp [Open]
  | cons s text ih =>
    have hsplit : (∀ before n after, s :: text = before ++ .hole n :: after →
        (σ.run before).mode = .unquoted) ↔
        (∀ n, s = .hole n → σ.mode = .unquoted) ∧
          ∀ before n after, text = before ++ .hole n :: after →
            ((σ.step s).run before).mode = .unquoted := by
      constructor
      · intro h
        refine ⟨fun n hs => h [] n text (by rw [hs]; rfl), fun before n after htext => ?_⟩
        exact h (s :: before) n after (by rw [htext]; rfl)
      · rintro ⟨hhead, htail⟩ before n after heq
        cases before with
        | nil => exact hhead n (List.cons.inj heq).1
        | cons s' before =>
          obtain ⟨hs, htext⟩ := List.cons.inj heq
          have := htail before n after htext
          rwa [hs] at this
    rw [hsplit, ← ih]
    cases s with
    | char c => simp [Open]
    | hole n => simp [Open]

theorem inject_readHole (hmode : σ.mode = .unquoted) (n : ν) :
    (σ.readHole n).inject value = (σ.inject value).run (chars (quote (value n))) := by
  have hinject : (σ.inject value).mode = .unquoted := hmode
  rw [run_quote hinject]
  simp [Lexer.readHole, hmode, Lexer.add, Lexer.inject_addAll, Part.inject]

/-- Where every hole is open, the values may be put in before the text is cut or after. -/
theorem run_expand {text : List (Symbol ν)} (h : Open σ text) :
    (σ.inject value).run (expand value text) = (σ.run text).inject value := by
  induction text generalizing σ with
  | nil => rfl
  | cons s text ih =>
    cases s with
    | char c =>
      have hrest := @ih (σ.read c) h
      rw [Lexer.inject_read] at hrest
      exact hrest
    | hole n =>
      obtain ⟨hmode, hopen⟩ := h
      have hrest := @ih (σ.readHole n) hopen
      rw [inject_readHole hmode] at hrest
      rw [Lexer.run_cons, Lexer.step_hole, ← hrest]
      exact Lexer.run_append _ _ _

theorem lex_expand {text : List (Symbol ν)} (h : Open start text) :
    lex (expand value text) = (lex text).inject value := by
  rw [lex, lex, ← Lexer.inject_finish, ← run_expand h]
  rfl

/-- No token that was cut is taken back. -/
theorem read_tokens_le (σ : Lexer ν) (c : Char) : σ.tokens.length ≤ (σ.read c).tokens.length := by
  have hemit : ∀ t, σ.tokens.length ≤ (σ.emit t).tokens.length := fun t =>
    Nat.le_trans (Nat.le_succ _) (σ.emit_tokens_le t)
  unfold Lexer.read Lexer.readUnquoted
  split <;> split_ifs <;> simp [hemit]

theorem readHole_tokens (σ : Lexer ν) (n : ν) : (σ.readHole n).tokens = σ.tokens := by
  unfold Lexer.readHole
  split <;> rfl

theorem run_tokens_le (σ : Lexer ν) (text : List (Symbol ν)) :
    σ.tokens.length ≤ (σ.run text).tokens.length := by
  induction text generalizing σ with
  | nil => exact Nat.le_refl _
  | cons s text ih =>
    have hstep : σ.tokens.length ≤ (σ.step s).tokens.length := by
      cases s with
      | char c => exact read_tokens_le σ c
      | hole n => exact Nat.le_of_eq (congrArg List.length (readHole_tokens σ n).symm)
    exact Nat.le_trans hstep (ih _)

def newlines (k : Nat) : List Char := List.replicate k '\n'

theorem newlines_succ (k : Nat) : newlines (k + 1) = '\n' :: newlines k := rfl

/-- Outside quotes each newline is a token. -/
theorem run_newlines {σ : Lexer ν} (h : σ.mode = .unquoted ∨ σ.mode = .comment) (k : Nat) :
    k ≤ (σ.run (chars (newlines k))).tokens.length := by
  suffices hmore : σ.tokens.length + k ≤ (σ.run (chars (newlines k))).tokens.length by omega
  induction k generalizing σ with
  | zero => exact Nat.le_refl _
  | succ k ih =>
    have hread : σ.read '\n' = (σ.emit .newline).enter .unquoted := by
      rcases h with h | h
      · have hmode : (σ.emit .newline).mode = .unquoted := by rw [Lexer.emit_mode, h]
        rw [Lexer.enter_of_mode hmode]
        simp [Lexer.read, h, Lexer.readUnquoted]
      · simp [Lexer.read, h]
    have hemit := σ.emit_tokens_le .newline
    have hrest := @ih ((σ.emit .newline).enter .unquoted) (.inl rfl)
    rw [newlines_succ, chars_cons, Lexer.run_cons, Lexer.step_char, hread]
    rw [Lexer.enter_tokens] at hrest
    omega

/-- Inside double quotes no newline leaves them. -/
theorem run_newlines_double {σ : Lexer ν} (h : σ.mode = .double) (k : Nat) :
    (σ.run (chars (newlines k))).mode = .double := by
  induction k generalizing σ with
  | zero => exact h
  | succ k ih =>
    rw [newlines_succ, chars_cons, Lexer.run_cons, Lexer.step_char]
    exact ih (by simp [Lexer.read, h])

/-- A value that breaks out wherever it is not put into an open hole. -/
def breakout (k : Nat) : List Char := newlines k ++ '"' :: newlines k

theorem quote_breakout (k : Nat) : quote (breakout k) = '\'' :: breakout k ++ ['\''] := by
  have hid : ∀ text : List Char, '\'' ∉ text →
      (text.flatMap fun c => if c = '\'' then ['\'', '\\', '\'', '\''] else [c]) = text := by
    intro text htext
    induction text with
    | nil => rfl
    | cons c text ih =>
      have hc : c ≠ '\'' := fun heq => htext (heq ▸ List.mem_cons_self)
      have hrest : '\'' ∉ text := fun hmem => htext (List.mem_cons_of_mem _ hmem)
      rw [List.flatMap_cons, if_neg hc, ih hrest, List.singleton_append]
  have hnot : '\'' ∉ breakout k := by
    simp [breakout, newlines, List.mem_replicate]
  rw [quote, hid _ hnot]

theorem run_breakout {σ : Lexer ν} (h : σ.mode ≠ .unquoted) (k : Nat) :
    k ≤ (σ.run (chars (quote (breakout k)))).tokens.length := by
  have hplain : ∀ τ : Lexer ν, τ.mode = .unquoted ∨ τ.mode = .comment →
      k ≤ (τ.run (chars (breakout k ++ ['\'']))).tokens.length := by
    intro τ hτ
    rw [breakout, List.append_assoc, chars_append, Lexer.run_append]
    exact Nat.le_trans (run_newlines hτ k) (run_tokens_le _ _)
  have hquoted : ∀ τ : Lexer ν, τ.mode = .double →
      k ≤ (τ.run (chars (breakout k ++ ['\'']))).tokens.length := by
    intro τ hτ
    have hmode := run_newlines_double hτ k
    have hclose : ((τ.run (chars (newlines k))).read '"').mode = .unquoted := by
      simp [Lexer.read, hmode]
    rw [breakout, List.append_assoc, chars_append, Lexer.run_append, List.cons_append, chars_cons,
      Lexer.run_cons, Lexer.step_char, chars_append, Lexer.run_append]
    exact Nat.le_trans (run_newlines (.inl hclose) k) (run_tokens_le _ _)
  rw [quote_breakout, List.cons_append, chars_cons, Lexer.run_cons, Lexer.step_char]
  cases hmode : σ.mode with
  | unquoted => exact absurd hmode h
  | escape => exact hplain _ (.inl (by simp [Lexer.read, hmode]))
  | single => exact hplain _ (.inl (by simp [Lexer.read, hmode]))
  | double => exact hquoted _ (by simp [Lexer.read, hmode])
  | doubleEscape => exact hquoted _ (by simp [Lexer.read, hmode, dquoteEscapes])
  | comment => exact hplain _ (.inr (by simp [Lexer.read, hmode]))

/-- A text with a hole that is not open is cut into as many tokens as one likes. -/
theorem run_expand_breakout {σ : Lexer ν} {text : List (Symbol ν)} (h : ¬ Open σ text) (k : Nat) :
    k ≤ ((σ.inject fun _ => breakout k).run
      (expand (fun _ => breakout k) text)).tokens.length := by
  induction text generalizing σ with
  | nil => exact absurd trivial h
  | cons s text ih =>
    cases s with
    | char c =>
      have hrest := @ih (σ.read c) h
      rwa [Lexer.inject_read] at hrest
    | hole n =>
      have hexpand : expand (fun _ => breakout k) (.hole n :: text) =
          chars (quote (breakout k)) ++ expand (fun _ : ν => breakout k) text := rfl
      rw [hexpand, Lexer.run_append]
      by_cases hmode : σ.mode = .unquoted
      · rw [← inject_readHole hmode]
        exact @ih (σ.readHole n) fun hopen => h ⟨hmode, hopen⟩
      · have hinject : (σ.inject fun _ => breakout k).mode ≠ .unquoted := hmode
        exact Nat.le_trans (run_breakout hinject k) (run_tokens_le _ _)

/-- Only a text whose holes are all open is cut alike whatever is put in. -/
theorem open_of_lex_expand {text : List (Symbol ν)}
    (h : ∀ value : ν → List Char, lex (expand value text) = (lex text).inject value) :
    Open start text := by
  by_contra hclosed
  have hmany := run_expand_breakout hclosed ((lex text).tokens.length + 1)
  have heq := congrArg (fun l => l.tokens.length) (h fun _ => breakout ((lex text).tokens.length + 1))
  have hflush := Lexer.flush_tokens_le (start.run
    (expand (fun _ : ν => breakout ((lex text).tokens.length + 1)) text))
  simp only [lex, Lexed.inject, Lexer.finish, List.length_map] at heq hflush hmany
  have hstart : (start : Lexer ν).inject (fun _ => breakout ((start.run text).flush.tokens.length + 1))
      = start := rfl
  rw [hstart] at hmany
  omega

end

/-! Which holes end up in a word, outside its quotes. -/

def Part.holes : Part ν → List ν
  | .hole n => [n]
  | _ => []

def Token.holes : Token ν → List ν
  | .word parts => parts.flatMap Part.holes
  | _ => []

def Lexed.holes (l : Lexed ν) : List ν := l.tokens.flatMap Token.holes

def Symbol.holes : Symbol ν → List ν
  | .hole n => [n]
  | .char _ => []

namespace Lexer

def holes (σ : Lexer ν) : List ν :=
  σ.tokens.flatMap Token.holes ++ (σ.word.getD []).flatMap Part.holes

variable (σ : Lexer ν)

@[simp] theorem holes_enter (mode : Mode) : (σ.enter mode).holes = σ.holes := rfl

@[simp] theorem holes_addAll (parts : List (Part ν)) :
    (σ.addAll parts).holes = σ.holes ++ parts.flatMap Part.holes := by
  simp [holes, addAll, List.append_assoc]

@[simp] theorem holes_flush : σ.flush.holes = σ.holes := by
  cases h : σ.word <;> simp [holes, flush, h, Token.holes]

theorem word_flush : σ.flush.word = none := by
  cases h : σ.word <;> simp [flush, h]

theorem holes_finish : σ.finish.holes = σ.holes := by
  have h := σ.holes_flush
  rw [holes, word_flush] at h
  simpa [finish, Lexed.holes] using h

theorem holes_emit (t : Token ν) (ht : t.holes = []) : (σ.emit t).holes = σ.holes := by
  have hflush := σ.holes_flush
  rw [holes, word_flush] at hflush
  simpa [emit, push, holes, ht, word_flush] using hflush

theorem holes_read (c : Char) : (σ.read c).holes = σ.holes := by
  have hnewline := σ.holes_emit .newline rfl
  have hblank := σ.holes_emit (.blank c) rfl
  have hoperator := σ.holes_emit (.operator c) rfl
  unfold read readUnquoted
  split <;> split_ifs <;> simp [add, Part.holes, hnewline, hblank, hoperator]

end Lexer

theorem run_holes {σ : Lexer ν} {text : List (Symbol ν)} (h : Open σ text) :
    (σ.run text).holes = σ.holes ++ text.flatMap Symbol.holes := by
  induction text generalizing σ with
  | nil => simp
  | cons s text ih =>
    cases s with
    | char c =>
      rw [Lexer.run_cons, Lexer.step_char, @ih (σ.read c) h, Lexer.holes_read]
      rfl
    | hole n =>
      obtain ⟨hmode, hopen⟩ := h
      have hread : (σ.readHole n).holes = σ.holes ++ [n] := by
        simp [Lexer.readHole, hmode, Lexer.add, Part.holes]
      rw [Lexer.run_cons, Lexer.step_hole, ih hopen, hread, List.append_assoc]
      rfl

theorem lex_holes {text : List (Symbol ν)} (h : Open start text) :
    (lex text).holes = text.flatMap Symbol.holes := by
  rw [lex, Lexer.holes_finish, run_holes h]
  rfl

end

end Agend.Library.Shell
