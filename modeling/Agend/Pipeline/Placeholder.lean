import Mathlib.Data.List.Basic

/-! Command templates: which placeholders a template uses and how they are expanded.
Offsets of the source are positions in a character list; `skip` counts the characters of a
placeholder (or an escaped character) that the offset has already passed. -/
namespace Agend.Pipeline

/-- The placeholders a command template may use. -/
inductive Placeholder where
  | pr
  | head
  | branch
  deriving DecidableEq, Repr

namespace Placeholder

def name : Placeholder → String
  | pr => "pr"
  | head => "head"
  | branch => "branch"

def text : Placeholder → List Char
  | pr => "\x7bpr\x7d".toList
  | head => "\x7bhead\x7d".toList
  | branch => "\x7bbranch\x7d".toList

def all : List Placeholder := [pr, head, branch]

end Placeholder

/-- `placeholder_at`: the placeholder that `rest` starts with. -/
def placeholderAt (rest : List Char) : Option Placeholder :=
  Placeholder.all.find? fun p => p.text.isPrefixOf rest

/-- Values for command placeholders; `pr` is the change id of the last submit. -/
structure CommandContext where
  pr : Option String
  head : Option String
  branch : Option String
  deriving DecidableEq

def CommandContext.value (context : CommandContext) : Placeholder → Option String
  | .pr => context.pr
  | .head => context.head
  | .branch => context.branch

inductive Quote where
  | none
  | single
  | double
  deriving DecidableEq

/-- How one character outside a placeholder changes the quoting, and whether it escapes the
next character. -/
def Quote.after : Quote → Char → Quote × Bool
  | .single, '\'' => (.none, false)
  | .double, '"' => (.none, false)
  | .none, '\'' => (.single, false)
  | .none, '"' => (.double, false)
  | .none, '\\' => (.none, true)
  | .double, '\\' => (.double, true)
  | quote, _ => (quote, false)

theorem Quote.after_single {c : Char} (h : c ≠ '\'') : Quote.single.after c = (.single, false) := by
  unfold Quote.after
  split <;> simp_all

def scanPlaceholders : Nat → Quote → List Placeholder → List Char →
    Except Placeholder (List Placeholder)
  | _, _, used, [] => .ok used
  | skip + 1, quote, used, _ :: rest => scanPlaceholders skip quote used rest
  | 0, quote, used, c :: rest =>
    match placeholderAt (c :: rest) with
    | some p =>
      if quote ≠ .none then .error p
      else scanPlaceholders (p.text.length - 1) quote (if p ∈ used then used else used ++ [p]) rest
    | none =>
      let (quote, escapes) := quote.after c
      if escapes then
        match placeholderAt rest with
        | some p => .error p
        | none => scanPlaceholders 1 quote used rest
      else scanPlaceholders 0 quote used rest

theorem scanPlaceholders_nil {skip : Nat} {quote : Quote} {used : List Placeholder} :
    scanPlaceholders skip quote used [] = .ok used := by rw [scanPlaceholders]

/-- Placeholders of a template in first-use order; an error names one that is quoted or
escaped. -/
def commandPlaceholders (template : String) : Except Placeholder (List Placeholder) :=
  scanPlaceholders 0 .none [] template.toList

inductive CommandTemplateError where
  | missingValue (name : Placeholder)
  deriving DecidableEq

def CommandTemplateError.message : CommandTemplateError → String
  | .missingValue p => "command placeholder `\x7b" ++ p.name ++ "\x7d` has no value"

/-- A value as one single-quoted POSIX shell word. -/
def shellQuote (value : String) : List Char :=
  '\'' :: (value.toList.flatMap fun c => if c = '\'' then "'\\''".toList else [c]) ++ ['\'']

def expandPlaceholders (context : CommandContext) : Nat → List Char →
    Except CommandTemplateError (List Char)
  | _, [] => .ok []
  | skip + 1, _ :: rest => expandPlaceholders context skip rest
  | 0, c :: rest =>
    match placeholderAt (c :: rest) with
    | some p =>
      match context.value p with
      | none => .error (.missingValue p)
      | some value =>
        (expandPlaceholders context (p.text.length - 1) rest).map (shellQuote value ++ ·)
    | none => (expandPlaceholders context 0 rest).map (c :: ·)

def expandCommandPlaceholders (template : String) (context : CommandContext) :
    Except CommandTemplateError String :=
  (expandPlaceholders context 0 template.toList).map String.ofList

/-! Expansion succeeds exactly when every scanned placeholder has a value. -/

private theorem scanPlaceholders_mono {skip : Nat} {quote : Quote} {used found : List Placeholder}
    {rest : List Char} (h : scanPlaceholders skip quote used rest = .ok found) :
    ∀ p ∈ used, p ∈ found := by
  induction rest generalizing skip quote used with
  | nil =>
    rw [scanPlaceholders_nil] at h
    cases h
    exact fun p hp => hp
  | cons c rest ih =>
    cases skip with
    | succ skip => exact ih h
    | zero =>
      simp only [scanPlaceholders] at h
      cases hc : placeholderAt (c :: rest) with
      | some p =>
        simp only [hc] at h
        split_ifs at h with hq hp
        · exact ih h
        · exact fun q hu => ih h q (List.mem_append_left _ hu)
      | none =>
        simp only [hc] at h
        split_ifs at h
        · cases hr : placeholderAt rest with
          | some p => simp [hr] at h
          | none => simp only [hr] at h; exact ih h
        · exact ih h

private theorem expandPlaceholders_ok {context : CommandContext} {skip : Nat} {quote : Quote}
    {used found : List Placeholder} {rest : List Char}
    (h : scanPlaceholders skip quote used rest = .ok found)
    (hv : ∀ p ∈ found, context.value p ≠ none) :
    ∃ out, expandPlaceholders context skip rest = .ok out := by
  induction rest generalizing skip quote used with
  | nil => exact ⟨[], by rw [expandPlaceholders]⟩
  | cons c rest ih =>
    cases skip with
    | succ skip => exact ih h
    | zero =>
      simp only [scanPlaceholders] at h
      simp only [expandPlaceholders]
      cases hc : placeholderAt (c :: rest) with
      | some p =>
        simp only [hc] at h
        split_ifs at h with hq hp
        · have hp' := scanPlaceholders_mono h p hp
          obtain ⟨value, hval⟩ := Option.ne_none_iff_exists'.mp (hv p hp')
          obtain ⟨out, ho⟩ := ih h
          exact ⟨shellQuote value ++ out, by simp [hval, ho, Except.map]⟩
        · have hp' := scanPlaceholders_mono h p (by simp)
          obtain ⟨value, hval⟩ := Option.ne_none_iff_exists'.mp (hv p hp')
          obtain ⟨out, ho⟩ := ih h
          exact ⟨shellQuote value ++ out, by simp [hval, ho, Except.map]⟩
      | none =>
        simp only [hc] at h
        split_ifs at h
        · cases hr : placeholderAt rest with
          | some p => simp [hr] at h
          | none =>
            -- The escaped character is scanned with `skip = 1` and expanded on its own.
            simp only [hr] at h
            cases rest with
            | nil => exact ⟨[c], by simp [expandPlaceholders, Except.map]⟩
            | cons d rest =>
              obtain ⟨out, ho⟩ := ih h
              have hd : expandPlaceholders context 0 (d :: rest) = .ok (d :: out) := by
                rw [expandPlaceholders] at ho
                simp [expandPlaceholders, hr, ho, Except.map]
              exact ⟨c :: d :: out, by simp [hd, Except.map]⟩
        · obtain ⟨out, ho⟩ := ih h
          exact ⟨c :: out, by simp [ho, Except.map]⟩

private theorem value_of_expandPlaceholders {context : CommandContext} {skip : Nat}
    {quote : Quote} {used found : List Placeholder} {rest out : List Char}
    (h : scanPlaceholders skip quote used rest = .ok found)
    (ho : expandPlaceholders context skip rest = .ok out) :
    ∀ p ∈ found, p ∈ used ∨ context.value p ≠ none := by
  induction rest generalizing skip quote used out with
  | nil =>
    rw [scanPlaceholders_nil] at h
    cases h
    exact fun p hp => Or.inl hp
  | cons c rest ih =>
    cases skip with
    | succ skip => exact ih h ho
    | zero =>
      simp only [scanPlaceholders] at h
      simp only [expandPlaceholders] at ho
      cases hc : placeholderAt (c :: rest) with
      | some p =>
        simp only [hc] at h ho
        cases hval : context.value p with
        | none => simp [hval] at ho
        | some value =>
          cases hr : expandPlaceholders context (p.text.length - 1) rest with
          | error e => simp [hval, hr, Except.map] at ho
          | ok tail =>
            split_ifs at h with hq hp
            · exact ih h hr
            · intro q hq'
              rcases ih h hr q hq' with hu | hu
              · rcases List.mem_append.mp hu with hu | hu
                · exact Or.inl hu
                · rw [List.mem_singleton.mp hu, hval]
                  exact Or.inr (by simp)
              · exact Or.inr hu
      | none =>
        simp only [hc] at h ho
        cases hr : expandPlaceholders context 0 rest with
        | error e => simp [hr, Except.map] at ho
        | ok tail =>
          split_ifs at h
          · cases hp : placeholderAt rest with
            | some p => simp [hp] at h
            | none =>
              simp only [hp] at h
              cases rest with
              | nil => exact ih h (show expandPlaceholders context _ [] = .ok [] by
                  rw [expandPlaceholders])
              | cons d rest =>
                cases hd : expandPlaceholders context 0 rest with
                | error e => simp [expandPlaceholders, hp, hd, Except.map] at hr
                | ok out' =>
                  refine ih h (show expandPlaceholders context 1 (d :: rest) = .ok out' from ?_)
                  rw [expandPlaceholders]
                  exact hd
          · exact ih h hr

theorem expandCommandPlaceholders_isOk_iff {template : String} {used : List Placeholder}
    (h : commandPlaceholders template = .ok used) (context : CommandContext) :
    (∃ out, expandCommandPlaceholders template context = .ok out) ↔
      ∀ p ∈ used, context.value p ≠ none := by
  constructor
  · rintro ⟨out, ho⟩ p hp
    cases he : expandPlaceholders context 0 template.toList with
    | error e => simp [expandCommandPlaceholders, he, Except.map] at ho
    | ok chars =>
      rcases value_of_expandPlaceholders h he p hp with hu | hu
      · cases hu
      · exact hu
  · intro hv
    obtain ⟨out, ho⟩ := expandPlaceholders_ok h hv
    exact ⟨String.ofList out, by simp [expandCommandPlaceholders, ho, Except.map]⟩

end Agend.Pipeline
