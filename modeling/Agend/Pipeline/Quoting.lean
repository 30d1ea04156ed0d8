import Agend.Pipeline.Placeholder
import Agend.Library.ShellWords

/-! What the shell makes of an expanded command. -/
namespace Agend.Pipeline

open Library

/-- A template as the expansion reads it: its characters and its placeholders. -/
def symbols : Nat → List Char → List (Shell.Symbol Placeholder)
  | _, [] => []
  | skip + 1, _ :: rest => symbols skip rest
  | 0, c :: rest =>
    match placeholderAt (c :: rest) with
    | some p => .hole p :: symbols (p.text.length - 1) rest
    | none => .char c :: symbols 0 rest

def templateSymbols (template : String) : List (Shell.Symbol Placeholder) :=
  symbols 0 template.toList

/-- The characters that are put in for a placeholder. -/
def CommandContext.chars (context : CommandContext) (p : Placeholder) : List Char :=
  ((context.value p).getD "").toList

theorem shellQuote_eq (value : String) : shellQuote value = Shell.quote value.toList := rfl

theorem expandPlaceholders_chars {context : CommandContext} {skip : Nat} {rest out : List Char}
    (h : expandPlaceholders context skip rest = .ok out) :
    Shell.chars out = Shell.expand context.chars (symbols skip rest) := by
  induction rest generalizing skip out with
  | nil =>
    simp only [expandPlaceholders, Except.ok.injEq] at h
    rw [← h]
    rfl
  | cons c rest ih =>
    cases skip with
    | succ skip => exact ih h
    | zero =>
      simp only [expandPlaceholders] at h
      simp only [symbols]
      cases hp : placeholderAt (c :: rest) with
      | some p =>
        cases hv : context.value p with
        | none => simp [hp, hv] at h
        | some value =>
          cases hr : expandPlaceholders context (p.text.length - 1) rest with
          | error e => simp [hp, hv, hr, Except.map] at h
          | ok tail =>
            simp only [hp, hv, hr, Except.map, Except.ok.injEq] at h
            have hchars : context.chars p = value.toList := by simp [CommandContext.chars, hv]
            rw [← h, Shell.chars_append, ih hr, shellQuote_eq, ← hchars]
            rfl
      | none =>
        cases hr : expandPlaceholders context 0 rest with
        | error e => simp [hp, hr, Except.map] at h
        | ok tail =>
          simp only [hp, hr, Except.map, Except.ok.injEq] at h
          rw [← h, Shell.chars_cons, ih hr]
          rfl

/-- The shell reads the expansion as the template with the values put in. -/
theorem expandCommandPlaceholders_chars {template out : String} {context : CommandContext}
    (h : expandCommandPlaceholders template context = .ok out) :
    Shell.chars out.toList = Shell.expand context.chars (templateSymbols template) := by
  cases hr : expandPlaceholders context 0 template.toList with
  | error e => simp [expandCommandPlaceholders, hr, Except.map] at h
  | ok chars =>
    simp only [expandCommandPlaceholders, hr, Except.map, Except.ok.injEq] at h
    rw [← h, String.toList_ofList]
    exact expandPlaceholders_chars hr

/-! The scan follows the quotes of the shell as long as there is no comment. -/

theorem scanPlaceholders_drop (skip : Nat) (quote : Quote) (used : List Placeholder)
    (rest : List Char) :
    scanPlaceholders skip quote used rest = scanPlaceholders 0 quote used (rest.drop skip) := by
  induction rest generalizing skip with
  | nil => rw [List.drop_nil, scanPlaceholders_nil, scanPlaceholders_nil]
  | cons c rest ih =>
    cases skip with
    | zero => rfl
    | succ skip => exact ih skip

theorem symbols_drop (skip : Nat) (rest : List Char) :
    symbols skip rest = symbols 0 (rest.drop skip) := by
  induction rest generalizing skip with
  | nil => simp [symbols]
  | cons c rest ih =>
    cases skip with
    | zero => rfl
    | succ skip => exact ih skip

def Quote.mode : Quote → Shell.Mode
  | .none => .unquoted
  | .single => .single
  | .double => .double

section

variable {ν : Type} {σ : Shell.Lexer ν} {quote : Quote} {c : Char}

/-- A character that escapes nothing moves the scan as it moves the shell. -/
theorem read_mode_of_plain (hmode : σ.mode = quote.mode) (hplain : (quote.after c).2 = false)
    (hcomment : (σ.read c).mode ≠ .comment) : (σ.read c).mode = (quote.after c).1.mode := by
  cases quote with
  | none =>
    have hescape : c ≠ '\\' := by
      rintro rfl
      cases hplain
    by_cases hsingle : c = '\''
    · subst hsingle
      simp [Shell.Lexer.read, hmode, Quote.mode, Shell.Lexer.readUnquoted, Quote.after]
    by_cases hdouble : c = '"'
    · subst hdouble
      simp [Shell.Lexer.read, hmode, Quote.mode, Shell.Lexer.readUnquoted, Quote.after]
    have hafter : Quote.none.after c = (.none, false) := by
      unfold Quote.after
      split <;> simp_all
    rw [hafter]
    simp only [Shell.Lexer.read, hmode, Quote.mode, Shell.Lexer.readUnquoted, hsingle, hdouble,
      hescape, if_false] at hcomment ⊢
    split_ifs at hcomment ⊢ <;> simp_all [Quote.mode]
  | single =>
    by_cases hsingle : c = '\''
    · subst hsingle
      simp [Shell.Lexer.read, hmode, Quote.mode, Quote.after]
    rw [Quote.after_single hsingle]
    simp [Shell.Lexer.read, hmode, Quote.mode, hsingle]
  | double =>
    have hescape : c ≠ '\\' := by
      rintro rfl
      cases hplain
    by_cases hdouble : c = '"'
    · subst hdouble
      simp [Shell.Lexer.read, hmode, Quote.mode, Quote.after]
    have hafter : Quote.double.after c = (.double, false) := by
      unfold Quote.after
      split <;> simp_all
    rw [hafter]
    simp [Shell.Lexer.read, hmode, Quote.mode, hdouble, hescape]

/-- An escape and the character after it leave both where they were. -/
theorem read_mode_of_escape (hmode : σ.mode = quote.mode) (hescape : (quote.after c).2 = true)
    (d : Char) : (quote.after c).1 = quote ∧ ((σ.read c).read d).mode = quote.mode := by
  unfold Quote.after at hescape ⊢
  split at hescape
  case h_5 =>
    refine ⟨rfl, ?_⟩
    have hread : (σ.read '\\').mode = .escape := by
      simp [Shell.Lexer.read, hmode, Quote.mode, Shell.Lexer.readUnquoted]
    generalize σ.read '\\' = τ at hread
    simp only [Shell.Lexer.read, hread]
    split <;> rfl
  case h_6 =>
    refine ⟨rfl, ?_⟩
    have hread : (σ.read '\\').mode = .doubleEscape := by
      simp [Shell.Lexer.read, hmode, Quote.mode]
    generalize σ.read '\\' = τ at hread
    simp only [Shell.Lexer.read, hread]
    split_ifs <;> rfl
  all_goals cases hescape

end

theorem open_of_scan {quote : Quote} {used found : List Placeholder} {rest : List Char}
    {σ : Shell.Lexer Placeholder} (h : scanPlaceholders 0 quote used rest = .ok found)
    (hmode : σ.mode = quote.mode) (hcomment : Shell.NoComment σ (symbols 0 rest)) :
    Shell.Open σ (symbols 0 rest) := by
  induction hlength : rest.length using Nat.strongRecOn
    generalizing rest quote used σ with
  | _ length ih =>
    cases rest with
    | nil => trivial
    | cons c rest =>
      simp only [List.length_cons] at hlength
      simp only [scanPlaceholders] at h
      simp only [symbols] at hcomment ⊢
      cases hp : placeholderAt (c :: rest) with
      | some p =>
        simp only [hp] at h hcomment ⊢
        split_ifs at h with hquote hused
        all_goals
          rw [scanPlaceholders_drop] at h
          rw [symbols_drop] at hcomment ⊢
          have hnone : quote = .none := not_not.mp hquote
          subst hnone
          have hread : (σ.readHole p).mode = .unquoted := by
            simp [Shell.Lexer.readHole, hmode, Quote.mode]
          have hshort : (rest.drop (p.text.length - 1)).length < length := by
            rw [List.length_drop]
            omega
          exact ⟨hmode, ih _ hshort h hread hcomment.2 rfl⟩
      | none =>
        simp only [hp] at h hcomment ⊢
        split_ifs at h with hescape
        · cases hnext : placeholderAt rest with
          | some p => simp [hnext] at h
          | none =>
            simp only [hnext, scanPlaceholders_drop 1] at h
            cases rest with
            | nil => trivial
            | cons d rest =>
              have hchars : symbols 0 (d :: rest) = .char d :: symbols 0 rest := by
                simp [symbols, hnext]
              rw [hchars] at hcomment ⊢
              obtain ⟨hsame, hback⟩ := read_mode_of_escape hmode hescape d
              rw [hsame] at h
              simp only [List.length_cons] at hlength
              exact ih rest.length (by omega) h hback hcomment.2.2 rfl
        · have hplain : (quote.after c).2 = false := by simpa using hescape
          have hread := read_mode_of_plain hmode hplain hcomment.1
          exact ih rest.length (by omega) h hread hcomment.2 rfl

/-- The shell cuts the expansion as it cuts the template, and every placeholder stands for
exactly the characters of its value, outside the quotes of the template. -/
structure Literal (template : String) (context : CommandContext) (out : String) : Prop where
  tokens : Shell.lex (Shell.chars out.toList) =
    (Shell.lex (templateSymbols template)).inject context.chars
  placed : (Shell.lex (templateSymbols template)).holes =
    (templateSymbols template).flatMap Shell.Symbol.holes

/-- What a workflow author is promised of a command that the check let through. -/
structure Guarded (template : String) (used : List Placeholder) (context : CommandContext) :
    Prop where
  isOk : (∃ out, expandCommandPlaceholders template context = .ok out) ↔
    ∀ p ∈ used, context.value p ≠ none
  literal : ∀ out, expandCommandPlaceholders template context = .ok out →
    Literal template context out

/-- The shell comes to every placeholder outside quotes, escapes and comments. -/
def Outside (template : String) : Prop :=
  ∀ before p after, templateSymbols template = before ++ .hole p :: after →
    (Shell.start.run before).mode = .unquoted

theorem outside_iff (template : String) :
    Outside template ↔ Shell.Open Shell.start (templateSymbols template) :=
  Shell.open_iff.symm

/-- A context with a value for every placeholder. -/
def CommandContext.all (value : Placeholder → List Char) : CommandContext :=
  ⟨some (String.ofList (value .pr)), some (String.ofList (value .head)),
    some (String.ofList (value .branch))⟩

theorem CommandContext.chars_all (value : Placeholder → List Char) :
    (CommandContext.all value).chars = value := by
  funext p
  cases p <;> exact String.toList_ofList

theorem CommandContext.value_all (value : Placeholder → List Char) (p : Placeholder) :
    (CommandContext.all value).value p ≠ none := by
  cases p <;> exact Option.some_ne_none _

/-- For a command that the check let through, the values stay literal whatever they are exactly
where the shell itself comes to each placeholder outside quotes and comments. Without a comment
it does. -/
theorem expansion_literal_iff (template : String) (used : List Placeholder)
    (h : commandPlaceholders template = .ok used) :
    ((∀ context, Guarded template used context) ↔ Outside template) ∧
      (Shell.NoComment Shell.start (templateSymbols template) → Outside template) := by
  refine ⟨⟨fun hall => ?_, fun hout context => ?_⟩, fun hcomment => ?_⟩
  · rw [outside_iff]
    refine Shell.open_of_lex_expand fun value => ?_
    have hguarded := hall (.all value)
    obtain ⟨out, ho⟩ := hguarded.isOk.mpr fun p _ => CommandContext.value_all value p
    have htokens := (hguarded.literal out ho).tokens
    rwa [expandCommandPlaceholders_chars ho, CommandContext.chars_all] at htokens
  · rw [outside_iff] at hout
    refine ⟨expandCommandPlaceholders_isOk_iff h context, fun out ho => ⟨?_, ?_⟩⟩
    · rw [expandCommandPlaceholders_chars ho, Shell.lex_expand hout]
    · exact Shell.lex_holes hout
  · rw [outside_iff]
    exact open_of_scan h rfl hcomment

/-- An apostrophe in a comment turns the quotes that follow inside out. -/
theorem value_outside_quotes :
    let template := "# don't\necho '\x7bpr\x7d'"
    let context : CommandContext := ⟨some ";id", none, none⟩
    commandPlaceholders template = .ok [.pr] ∧
      expandCommandPlaceholders template context = .ok "# don't\necho '';id''" ∧
      Shell.Token.operator ';' ∈
        (Shell.lex (Shell.chars "# don't\necho '';id''".toList) : Shell.Lexed Placeholder).tokens ∧
      ¬ Guarded template [.pr] context := by
  intro template context
  have ho : expandCommandPlaceholders template context = .ok "# don't\necho '';id''" := by decide
  refine ⟨by decide, ho, by decide, fun hguarded => ?_⟩
  have htokens := (hguarded.literal _ ho).tokens
  revert htokens
  decide

/-- A command with quotes, an escape and no comment. -/
theorem expansion_literal_iff_plain :
    let template := "gh pr merge \x7bpr\x7d --body \"a \\\" b\" 'it'\\''s'"
    commandPlaceholders template = .ok [.pr] ∧ ∀ context, Guarded template [.pr] context := by
  intro template
  have h : commandPlaceholders template = .ok [.pr] := by decide
  have hiff := expansion_literal_iff template [.pr] h
  exact ⟨h, hiff.1.mpr (hiff.2 (by decide))⟩

end Agend.Pipeline
