import Mathlib.Data.List.Basic

/-! XML property lists, read character by character into a value. What is not read here (comments,
sections, document types, other references) is refused. -/
namespace Agend.Library.Plist

abbrev Text := List Char

inductive Token
  | text (content : Text)
  | tag (content : Text)

inductive Value
  | string (text : Text)
  | integer (text : Text)
  | boolean (b : Bool)
  | array (values : List Value)
  | dict (entries : List (Text × Value))

/-- An element that is open. -/
inductive Frame
  | plist (value : Option Value)
  | array (values : List Value)
  | dict (entries : List (Text × Value)) (key : Option Text)
  | leaf (name text : Text)

structure Builder where
  stack : List Frame
  result : Option Value

def isBlank (text : Text) : Bool := text.all fun c => c = ' ' ∨ c = '\t' ∨ c = '\n'

/-- A value that is complete goes to the element around it. -/
def Builder.add (σ : Builder) (v : Value) : Option Builder :=
  match σ.stack with
  | .plist none :: rest => some { σ with stack := .plist (some v) :: rest }
  | .array values :: rest => some { σ with stack := .array (values ++ [v]) :: rest }
  | .dict entries (some key) :: rest =>
    some { σ with stack := .dict (entries ++ [(key, v)]) none :: rest }
  | _ => none

def plistName : Text := ['p', 'l', 'i', 's', 't']
def arrayName : Text := ['a', 'r', 'r', 'a', 'y']
def dictName : Text := ['d', 'i', 'c', 't']
def keyName : Text := ['k', 'e', 'y']
def stringName : Text := ['s', 't', 'r', 'i', 'n', 'g']
def integerName : Text := ['i', 'n', 't', 'e', 'g', 'e', 'r']
def trueName : Text := ['t', 'r', 'u', 'e', '/']
def falseName : Text := ['f', 'a', 'l', 's', 'e', '/']

def Builder.open (σ : Builder) (frame : Frame) : Builder := { σ with stack := frame :: σ.stack }

def Builder.close (σ : Builder) (name : Text) : Option Builder :=
  match σ.stack with
  | .plist (some v) :: [] => if name = plistName ∧ σ.result.isNone then some ⟨[], some v⟩ else none
  | .array values :: rest =>
    if name = arrayName then Builder.add { σ with stack := rest } (.array values) else none
  | .dict entries none :: rest =>
    if name = dictName then Builder.add { σ with stack := rest } (.dict entries) else none
  | .leaf leaf text :: rest =>
    if name ≠ leaf then none
    else if leaf = keyName then
      match rest with
      | .dict entries none :: rest =>
        some { σ with stack := .dict entries (some text) :: rest }
      | _ => none
    else if leaf = stringName then Builder.add { σ with stack := rest } (.string text)
    else Builder.add { σ with stack := rest } (.integer text)
  | _ => none

def Builder.step (σ : Builder) : Token → Option Builder
  | .text content =>
    match σ.stack with
    | .leaf name text :: rest => some { σ with stack := .leaf name (text ++ content) :: rest }
    | _ => if isBlank content then some σ else none
  | .tag content =>
    match content with
    | '?' :: _ => if σ.stack.isEmpty ∧ σ.result.isNone then some σ else none
    | '/' :: name => σ.close name
    | _ =>
      let name := content.takeWhile (· ≠ ' ')
      if name = plistName ∧ σ.stack.isEmpty then some (σ.open (.plist none))
      else if content = arrayName then some (σ.open (.array []))
      else if content = dictName then some (σ.open (.dict [] none))
      else if content = keyName ∨ content = stringName ∨ content = integerName then
        some (σ.open (.leaf content []))
      else if content = trueName then σ.add (.boolean true)
      else if content = falseName then σ.add (.boolean false)
      else none

/-- Where the reader is in the markup; what it has seen there stands in reverse. -/
inductive Mode
  | text (seen : Text)
  | reference (seen name : Text)
  | tag (seen : Text) (quote : Option Char)

structure Reader where
  builder : Builder
  mode : Mode

def start : Reader := ⟨⟨[], none⟩, .text []⟩

/-- The characters of XML documents, but for the carriage return. -/
def xmlChar (c : Char) : Bool :=
  c = '\t' || c = '\n' || (0x20 ≤ c.toNat && c.toNat != 0xFFFE && c.toNat != 0xFFFF)

/-- The five references that need no definition. -/
def reference (name : Text) : Option Char :=
  if name = ['a', 'm', 'p'] then some '&'
  else if name = ['l', 't'] then some '<'
  else if name = ['g', 't'] then some '>'
  else if name = ['q', 'u', 'o', 't'] then some '"'
  else if name = ['a', 'p', 'o', 's'] then some '\''
  else none

def step : Reader → Char → Option Reader
  | ⟨builder, mode⟩, c =>
    if xmlChar c then
      match mode with
      | .text seen =>
        if c = '<' then (builder.step (.text seen.reverse)).map (⟨·, .tag [] none⟩)
        else if c = '&' then some ⟨builder, .reference seen []⟩
        else some ⟨builder, .text (c :: seen)⟩
      | .reference seen name =>
        if c = ';' then (reference name.reverse).map fun r => ⟨builder, .text (r :: seen)⟩
        else some ⟨builder, .reference seen (c :: name)⟩
      | .tag seen none =>
        if c = '>' then (builder.step (.tag seen.reverse)).map (⟨·, .text []⟩)
        else if c = '<' then none
        else if c = '"' ∨ c = '\'' then some ⟨builder, .tag (c :: seen) (some c)⟩
        else some ⟨builder, .tag (c :: seen) none⟩
      | .tag seen (some quote) =>
        some ⟨builder, .tag (c :: seen) (if c = quote then none else some quote)⟩
    else none

def run : Option Reader → Text → Option Reader
  | none, _ => none
  | some σ, [] => some σ
  | some σ, c :: text => run (step σ c) text

/-- The value of a property list, which ends outside of tags and references. -/
def read (text : Text) : Option Value :=
  match run (some start) text with
  | some ⟨⟨[], some v⟩, .text seen⟩ => if isBlank seen then some v else none
  | _ => none

theorem run_none (text : Text) : run none text = none := by
  cases text <;> rfl

@[simp] theorem run_append (σ : Option Reader) (a b : Text) :
    run σ (a ++ b) = run (run σ a) b := by
  induction a generalizing σ with
  | nil => cases σ <;> simp [run, run_none]
  | cons c a ih =>
    cases σ with
    | none => rw [run_none, run_none, run_none]
    | some σ => exact ih (step σ c)

/-- Pieces are read one after the other. -/
theorem run_flatten (σ : Option Reader) (pieces : List Text) :
    run σ pieces.flatten = pieces.foldl run σ := by
  induction pieces generalizing σ with
  | nil => cases σ <;> rfl
  | cons piece pieces ih => rw [List.flatten_cons, run_append, List.foldl_cons, ih]

/-- A literal is read as its characters. -/
theorem foldl_literal (σ : Option Reader) (l : Text) (pieces : List Text) :
    ((String.ofList l).toList :: pieces).foldl run σ = pieces.foldl run (run σ l) := by
  rw [String.toList_ofList, List.foldl_cons]

/-- A character of a text that is none of markup. -/
theorem run_char {c : Char} (hxml : xmlChar c = true) (hopen : c ≠ '<') (href : c ≠ '&')
    (builder : Builder) (seen : Text) :
    run (some ⟨builder, .text seen⟩) [c] = some ⟨builder, .text (c :: seen)⟩ := by
  have hrun : run (some ⟨builder, .text seen⟩) [c] = step ⟨builder, .text seen⟩ c := by
    rw [run]
    cases step ⟨builder, .text seen⟩ c <;> rfl
  rw [hrun, step, if_pos hxml]
  change (if c = '<' then _ else _) = _
  rw [if_neg hopen, if_neg href]

/-- A text that is written one character after the other is read as the text. -/
theorem run_flatMap {write : Char → Text} (text : Text)
    (h : ∀ c ∈ text, ∀ builder seen,
      run (some ⟨builder, .text seen⟩) (write c) = some ⟨builder, .text (c :: seen)⟩)
    (builder : Builder) (seen : Text) :
    run (some ⟨builder, .text seen⟩) (text.flatMap write) =
      some ⟨builder, .text (text.reverse ++ seen)⟩ := by
  induction text generalizing seen with
  | nil => rfl
  | cons c text ih =>
    rw [List.flatMap_cons, run_append, h c (List.mem_cons_self ..),
      ih (fun d hd => h d (List.mem_cons_of_mem _ hd)), List.reverse_cons, List.append_assoc]
    rfl

end Agend.Library.Plist
