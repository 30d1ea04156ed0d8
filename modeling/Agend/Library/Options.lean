import Mathlib.Data.List.Basic

/-! Command lines with long options, that any beginning of their name stands for, and clusters of
short ones. -/
namespace Agend.Library.Options

abbrev Text := List Char

/-- Whether an option takes a value: never, only in its own word, or else in the next one. -/
inductive Takes
  | never
  | may
  | must
  deriving DecidableEq

structure Spec (α : Type) where
  id : α
  long : Option Text
  letter : Option Char
  takes : Takes
  negatable : Bool

/-- An option of a command line, `on` unless it is negated. -/
structure Given (α : Type) where
  id : α
  on : Bool
  value : Option Text
  deriving DecidableEq

/-- A long option as it is written in full. -/
structure Spelling (α : Type) where
  text : Text
  id : α
  on : Bool
  takes : Takes

variable {α : Type}

def Spec.spellings (spec : Spec α) : List (Spelling α) :=
  match spec.long with
  | none => []
  | some name => ⟨name, spec.id, true, spec.takes⟩ ::
    if spec.negatable then [⟨['n', 'o', '-'] ++ name, spec.id, false, .never⟩] else []

/-- The option of this name, or the one option whose name begins with it. -/
def resolve (spellings : List (Spelling α)) (name : Text) : Option (Spelling α) :=
  match spellings.find? (·.text = name) with
  | some s => some s
  | none =>
    match spellings.filter (name.isPrefixOf ·.text) with
    | [s] => if name = [] then none else some s
    | _ => none

def nameOf (text : Text) : Text := text.takeWhile (· ≠ '=')

/-- A long option, and the option whose value the next word is. -/
def readLong (specs : List (Spec α)) (text : Text) : Option (List (Given α) × Option α) :=
  match resolve (specs.flatMap Spec.spellings) (nameOf text) with
  | none => none
  | some s =>
    match text.dropWhile (· ≠ '=') with
    | _ :: value =>
      if s.takes = .never then none else some ([⟨s.id, s.on, some value⟩], none)
    | [] => if s.takes = .must then some ([], some s.id) else some ([⟨s.id, s.on, none⟩], none)

/-- A cluster of short options, up to one that takes the rest of it. -/
def readCluster (specs : List (Spec α)) : Text → Option (List (Given α) × Option α)
  | [] => some ([], none)
  | c :: rest =>
    match specs.find? (·.letter = some c) with
    | none => none
    | some s =>
      match s.takes with
      | .never => (readCluster specs rest).map fun read => (⟨s.id, true, none⟩ :: read.1, read.2)
      | .may => some ([⟨s.id, true, if rest = [] then none else some rest⟩], none)
      | .must =>
        if rest = [] then some ([], some s.id) else some ([⟨s.id, true, some rest⟩], none)

def isOperand (word : Text) : Bool := word.head? ≠ some '-' || word = ['-']

def terminator : Text := ['-', '-']

def endOfOptions : Text := "--end-of-options".toList

/-- A word that is an option, or more than one. -/
def readWord (specs : List (Spec α)) : Text → Option (List (Given α) × Option α)
  | '-' :: '-' :: text => readLong specs text
  | _ :: text => readCluster specs text
  | [] => none

/-- A word of a command line with what it stands for, and with the word it takes as a value. -/
inductive Item (α : Type) where
  | operand (word : Text)
  | given (word : Text) (options : List (Given α))
  | taking (word : Text) (options : List (Given α)) (id : α) (value : Text)

/-- What ends the options: nothing, two dashes, or the long word for them. -/
inductive Tail
  | done
  | terminated (words : List Text)
  | ended (words : List Text)

structure Reading (α : Type) where
  items : List (Item α)
  tail : Tail

def Item.words : Item α → List Text
  | .operand word | .given word _ => [word]
  | .taking word _ _ value => [word, value]

def Item.options : Item α → List (Given α)
  | .operand _ => []
  | .given _ options => options
  | .taking _ options id value => options ++ [⟨id, true, some value⟩]

def Tail.words : Tail → List Text
  | .done => []
  | .terminated words => terminator :: words
  | .ended words => endOfOptions :: words

namespace Reading

def cons (item : Item α) (r : Reading α) : Reading α := { r with items := item :: r.items }

def words (r : Reading α) : List Text := r.items.flatMap Item.words ++ r.tail.words

def options (r : Reading α) : List (Given α) := r.items.flatMap Item.options

def operands (r : Reading α) : List Text :=
  r.items.filterMap fun
    | .operand word => some word
    | _ => none

end Reading

/-- A command line, or nothing where it is an error. -/
def read (specs : List (Spec α)) : List Text → Option (Reading α)
  | [] => some ⟨[], .done⟩
  | word :: words =>
    if isOperand word then (read specs words).map (.cons (.operand word))
    else if word = terminator then some ⟨[], .terminated words⟩
    else if word = endOfOptions then some ⟨[], .ended words⟩
    else
      match readWord specs word with
      | none => none
      | some (options, none) => (read specs words).map (.cons (.given word options))
      | some (options, some id) =>
        match words with
        | [] => none
        | value :: words => (read specs words).map (.cons (.taking word options id value))

/-- The words up to the first two dashes. -/
def untilTerminator (words : List Text) : List Text := words.takeWhile (· ≠ terminator)

/-- Whether two dashes are taken as the value of an option. -/
def Reading.swallows (r : Reading α) : Bool :=
  r.items.any fun
    | .taking _ _ _ value => value = terminator
    | _ => false

/-- Whether the last of these options is on. -/
def lastOn (options : List (Given α)) (p : α → Bool) : Bool :=
  ((options.filter fun g => p g.id).getLast?).any (·.on)

theorem resolve_eq_some {spellings : List (Spelling α)} {name : Text} {s : Spelling α}
    (h : resolve spellings name = some s) :
    s ∈ spellings ∧ (name = s.text ∨
      (name ≠ [] ∧ name <+: s.text ∧ ∀ t ∈ spellings, t.text ≠ name)) := by
  rw [resolve] at h
  cases hfind : spellings.find? (·.text = name) with
  | some t =>
    rw [hfind] at h
    cases h
    have htext := List.find?_some hfind
    rw [decide_eq_true_eq] at htext
    exact ⟨List.mem_of_find?_eq_some hfind, .inl htext.symm⟩
  | none =>
    rw [hfind] at h
    have hnone : ∀ t ∈ spellings, t.text ≠ name := by
      intro t ht
      have hne := List.find?_eq_none.mp hfind t ht
      rwa [decide_eq_true_eq] at hne
    have hmem : ∀ t ∈ spellings.filter (name.isPrefixOf ·.text), t ∈ spellings ∧ name <+: t.text := by
      intro t ht
      rwa [List.mem_filter, List.isPrefixOf_iff_prefix] at ht
    cases hfilter : spellings.filter (name.isPrefixOf ·.text) with
    | nil =>
      rw [hfilter] at h
      cases h
    | cons t rest =>
      cases rest with
      | cons _ _ =>
        rw [hfilter] at h
        cases h
      | nil =>
        simp only [hfilter] at h
        have ht := hmem t (hfilter ▸ List.mem_singleton_self t)
        by_cases hname : name = []
        · rw [if_pos hname] at h
          cases h
        · rw [if_neg hname] at h
          cases h
          exact ⟨ht.1, .inr ⟨hname, ht.2, hnone⟩⟩

/-- A word writes out an option. -/
inductive Spells (specs : List (Spec α)) : Text → α → Bool → Prop
  | long {text : Text} {s : Spelling α}
      (h : resolve (specs.flatMap Spec.spellings) (nameOf text) = some s) :
      Spells specs ('-' :: '-' :: text) s.id s.on
  | short {cluster : Text} {s : Spec α} {c : Char} (hs : s ∈ specs) (hletter : s.letter = some c)
      (hmem : c ∈ cluster) (hhead : cluster.head? ≠ some '-') :
      Spells specs ('-' :: cluster) s.id true

/-- Only an option that is not negated takes a value. -/
theorem on_of_must {specs : List (Spec α)} {s : Spelling α}
    (hs : s ∈ specs.flatMap Spec.spellings) (h : s.takes = .must) : s.on = true := by
  obtain ⟨spec, _, hspelling⟩ := List.mem_flatMap.mp hs
  rw [Spec.spellings] at hspelling
  cases hlong : spec.long with
  | none =>
    rw [hlong] at hspelling
    cases hspelling
  | some name =>
    rw [hlong] at hspelling
    rcases List.mem_cons.mp hspelling with heq | hmem
    · rw [heq]
    · by_cases hneg : spec.negatable = true
      · rw [if_pos hneg, List.mem_singleton] at hmem
        rw [hmem] at h
        cases h
      · rw [if_neg hneg] at hmem
        cases hmem

/-- A word writes out each option that is read from it, and the one that waits for its value. -/
def Writes (specs : List (Spec α)) (word : Text) (read : List (Given α) × Option α) : Prop :=
  (∀ g ∈ read.1, Spells specs word g.id g.on) ∧ ∀ id ∈ read.2, Spells specs word id true

theorem writes_readLong {specs : List (Spec α)} {text : Text} {read : List (Given α) × Option α}
    (h : readLong specs text = some read) : Writes specs ('-' :: '-' :: text) read := by
  rw [readLong] at h
  cases hresolve : resolve (specs.flatMap Spec.spellings) (nameOf text) with
  | none =>
    rw [hresolve] at h
    cases h
  | some s =>
    rw [hresolve] at h
    have hspells : Spells specs ('-' :: '-' :: text) s.id s.on := .long hresolve
    have hone : ∀ value, Writes specs ('-' :: '-' :: text) ([⟨s.id, s.on, value⟩], none) := by
      intro value
      constructor
      · intro g hg
        rw [List.mem_singleton.mp hg]
        exact hspells
      · intro id hid
        cases hid
    cases hvalue : text.dropWhile (· ≠ '=') with
    | nil =>
      simp only [hvalue] at h
      by_cases hmust : s.takes = .must
      · rw [if_pos hmust] at h
        cases h
        constructor
        · intro g hg
          cases hg
        · intro id hid
          cases hid
          have hon := on_of_must (resolve_eq_some hresolve).1 hmust
          exact hon ▸ hspells
      · rw [if_neg hmust] at h
        cases h
        exact hone none
    | cons c value =>
      simp only [hvalue] at h
      by_cases hnever : s.takes = .never
      · rw [if_pos hnever] at h
        cases h
      · rw [if_neg hnever] at h
        cases h
        exact hone (some value)

/-- The same for what is left of a cluster. -/
theorem writes_readCluster {specs : List (Spec α)} {cluster : Text}
    (hhead : cluster.head? ≠ some '-') {rest : Text} (hrest : ∀ c ∈ rest, c ∈ cluster)
    {read : List (Given α) × Option α} (h : readCluster specs rest = some read) :
    Writes specs ('-' :: cluster) read := by
  induction rest generalizing read with
  | nil =>
    cases h
    constructor <;> intro _ hmem <;> cases hmem
  | cons c rest ih =>
    rw [readCluster] at h
    cases hfind : specs.find? (·.letter = some c) with
    | none =>
      rw [hfind] at h
      cases h
    | some s =>
      rw [hfind] at h
      have hletter := List.find?_some hfind
      rw [decide_eq_true_eq] at hletter
      have hspells : Spells specs ('-' :: cluster) s.id true :=
        .short (List.mem_of_find?_eq_some hfind) hletter (hrest c (List.mem_cons_self ..)) hhead
      have hone : ∀ value, Writes specs ('-' :: cluster) ([⟨s.id, true, value⟩], none) := by
        intro value
        constructor
        · intro g hg
          rw [List.mem_singleton.mp hg]
          exact hspells
        · intro id hid
          cases hid
      cases htakes : s.takes with
      | never =>
        simp only [htakes] at h
        obtain ⟨tail, htail, heq⟩ := Option.map_eq_some_iff.mp h
        have htailWrites := ih (fun d hd => hrest d (List.mem_cons_of_mem c hd)) htail
        rw [← heq]
        constructor
        · intro g hg
          rcases List.mem_cons.mp hg with hfirst | hmem
          · rw [hfirst]
            exact hspells
          · exact htailWrites.1 g hmem
        · exact htailWrites.2
      | may =>
        simp only [htakes] at h
        cases h
        exact hone _
      | must =>
        simp only [htakes] at h
        by_cases hnil : rest = []
        · rw [if_pos hnil] at h
          cases h
          constructor
          · intro g hg
            cases hg
          · intro id hid
            cases hid
            exact hspells
        · rw [if_neg hnil] at h
          cases h
          exact hone _

/-- An option word, that is neither two dashes nor the long word for them. -/
structure OptionWord (word : Text) : Prop where
  dash : isOperand word = false
  terminator : word ≠ terminator
  ended : word ≠ endOfOptions

theorem writes_readWord {specs : List (Spec α)} {word : Text} (hword : OptionWord word)
    {read : List (Given α) × Option α} (h : readWord specs word = some read) :
    Writes specs word read := by
  have hdash := hword.dash
  rw [isOperand, Bool.or_eq_false_iff, decide_eq_false_iff_not, not_not] at hdash
  cases word with
  | nil => cases h
  | cons c word =>
    have hc : c = '-' := Option.some.inj hdash.1
    subst hc
    by_cases hlong : word.head? = some '-'
    · cases word with
      | nil => cases hlong
      | cons d text =>
        cases hlong
        exact writes_readLong h
    · have hcluster : readCluster specs word = some read := by
        cases word with
        | nil => exact h
        | cons d text =>
          have hd : d ≠ '-' := fun heq => hlong (heq ▸ rfl)
          rw [readWord] at h
          · exact h
          · intro text _ heq
            exact hd (List.cons.inj heq).1
      exact writes_readCluster hlong (fun c hc => hc) hcluster

/-- What an item says of its words. -/
inductive Item.Valid (specs : List (Spec α)) : Item α → Prop
  | operand {word : Text} (h : isOperand word = true) : Valid specs (.operand word)
  | given {word : Text} {options : List (Given α)} (hword : OptionWord word)
      (h : Writes specs word (options, none)) : Valid specs (.given word options)
  | taking {word value : Text} {options : List (Given α)} {id : α} (hword : OptionWord word)
      (h : Writes specs word (options, some id)) : Valid specs (.taking word options id value)

/-- A reading is of all the words, and each of its items is what these say. -/
structure Reading.Of (specs : List (Spec α)) (words : List Text) (r : Reading α) : Prop where
  words : r.words = words
  valid : ∀ item ∈ r.items, item.Valid specs

theorem Reading.Of.cons {specs : List (Spec α)} {words : List Text} {r : Reading α}
    (h : r.Of specs words) {item : Item α} (hitem : item.Valid specs) :
    (r.cons item).Of specs (item.words ++ words) := by
  constructor
  · rw [← h.words, Reading.words, Reading.words, Reading.cons, List.flatMap_cons, List.append_assoc]
  · intro other hother
    rcases List.mem_cons.mp hother with heq | hmem
    · exact heq ▸ hitem
    · exact h.valid other hmem

theorem of_read {specs : List (Spec α)} {words : List Text} {r : Reading α}
    (h : read specs words = some r) : r.Of specs words := by
  induction words using read.induct specs generalizing r with
  | case1 =>
    cases h
    exact ⟨rfl, nofun⟩
  | case2 word words hoperand ih =>
    rw [read, if_pos hoperand] at h
    obtain ⟨rest, hrest, heq⟩ := Option.map_eq_some_iff.mp h
    exact heq ▸ (ih hrest).cons (.operand hoperand)
  | case3 words hoperand =>
    rw [read, if_neg hoperand, if_pos rfl] at h
    cases h
    exact ⟨rfl, nofun⟩
  | case4 words hoperand hterminator =>
    rw [read, if_neg hoperand, if_neg hterminator, if_pos rfl] at h
    cases h
    exact ⟨rfl, nofun⟩
  | case5 word words hoperand hterminator hended hword =>
    simp only [read, if_neg hoperand, if_neg hterminator, if_neg hended, hword] at h
    cases h
  | case6 word words hoperand hterminator hended options hword ih =>
    simp only [read, if_neg hoperand, if_neg hterminator, if_neg hended, hword] at h
    obtain ⟨rest, hrest, heq⟩ := Option.map_eq_some_iff.mp h
    have hoption : OptionWord word := ⟨Bool.not_eq_true _ ▸ hoperand, hterminator, hended⟩
    exact heq ▸ (ih hrest).cons (.given hoption (writes_readWord hoption hword))
  | case7 word hoperand hterminator hended options id hword =>
    simp only [read, if_neg hoperand, if_neg hterminator, if_neg hended, hword] at h
    cases h
  | case8 word hoperand hterminator hended options id hword value words ih =>
    simp only [read, if_neg hoperand, if_neg hterminator, if_neg hended, hword] at h
    obtain ⟨rest, hrest, heq⟩ := Option.map_eq_some_iff.mp h
    have hoption : OptionWord word := ⟨Bool.not_eq_true _ ▸ hoperand, hterminator, hended⟩
    exact heq ▸ (ih hrest).cons (.taking hoption (writes_readWord hoption hword))

theorem Item.Valid.ne_terminator {specs : List (Spec α)} {item : Item α} (h : item.Valid specs)
    (hvalue : ∀ word options id, item ≠ .taking word options id terminator) :
    ∀ word ∈ item.words, word ≠ terminator := by
  cases h with
  | operand h =>
    intro other hother
    rw [List.mem_singleton.mp hother]
    intro heq
    rw [heq] at h
    cases h
  | given hword h =>
    intro other hother
    rw [List.mem_singleton.mp hother]
    exact hword.terminator
  | taking hword h =>
    rename_i word value options id
    intro other hother
    rcases List.mem_cons.mp hother with heq | hmem
    · rw [heq]
      exact hword.terminator
    · rw [List.mem_singleton.mp hmem]
      intro heq
      exact hvalue word options id (heq ▸ rfl)

/-- Two dashes that are no value end the words of the items. -/
theorem Reading.Of.untilTerminator_eq {specs : List (Spec α)} {words : List Text} {r : Reading α}
    (h : r.Of specs words) (hswallows : r.swallows = false) :
    untilTerminator words = r.items.flatMap Item.words ++ untilTerminator r.tail.words := by
  have hne : ∀ word ∈ r.items.flatMap Item.words, decide (word ≠ terminator) = true := by
    intro word hword
    obtain ⟨item, hitem, hmem⟩ := List.mem_flatMap.mp hword
    rw [decide_eq_true_eq]
    apply (h.valid item hitem).ne_terminator _ word hmem
    intro other options id heq
    rw [Reading.swallows, List.any_eq_false] at hswallows
    have hitemFalse := hswallows item hitem
    rw [heq] at hitemFalse
    simp at hitemFalse
  rw [← h.words, Reading.words, untilTerminator, List.takeWhile_append_of_pos hne]
  rfl

theorem Item.Valid.spelled {specs : List (Spec α)} {item : Item α} (h : item.Valid specs)
    {g : Given α} (hg : g ∈ item.options) : ∃ word ∈ item.words, Spells specs word g.id g.on := by
  cases h with
  | operand h => cases hg
  | given hword h => exact ⟨_, List.mem_singleton_self _, h.1 g hg⟩
  | taking hword h =>
    refine ⟨_, List.mem_cons_self .., ?_⟩
    rcases List.mem_append.mp hg with hmem | hlast
    · exact h.1 g hmem
    · rw [List.mem_singleton.mp hlast]
      exact h.2 _ rfl

/-- Each option is written out by a word before the two dashes. -/
theorem Reading.Of.spelled {specs : List (Spec α)} {words : List Text} {r : Reading α}
    (h : r.Of specs words) (hswallows : r.swallows = false) {g : Given α} (hg : g ∈ r.options) :
    ∃ word ∈ untilTerminator words, Spells specs word g.id g.on := by
  obtain ⟨item, hitem, hmem⟩ := List.mem_flatMap.mp hg
  obtain ⟨word, hword, hspells⟩ := (h.valid item hitem).spelled hmem
  refine ⟨word, ?_, hspells⟩
  rw [h.untilTerminator_eq hswallows]
  exact List.mem_append_left _ (List.mem_flatMap.mpr ⟨item, hitem, hword⟩)

/-- Where each word is an item of its own, the operands are the words that look like one. -/
theorem operands_eq_filter {specs : List (Spec α)} {items : List (Item α)}
    (hvalid : ∀ item ∈ items, item.Valid specs)
    (htaking : ∀ word options id value, .taking word options id value ∉ items) :
    (items.flatMap Item.words).filter isOperand =
      (Reading.mk items .done).operands := by
  induction items with
  | nil => rfl
  | cons item items ih =>
    have hrest := ih (fun other hmem => hvalid other (List.mem_cons_of_mem item hmem))
      (fun word options id value hmem =>
        htaking word options id value (List.mem_cons_of_mem item hmem))
    rw [List.flatMap_cons, List.filter_append, hrest]
    cases hvalid item (List.mem_cons_self ..) with
    | operand h =>
      rw [Item.words, List.filter_cons_of_pos h]
      rfl
    | given hword h =>
      rw [Item.words, List.filter_cons_of_neg (Bool.eq_false_iff.mp hword.dash)]
      rfl
    | taking hword h => exact absurd (List.mem_cons_self ..) (htaking _ _ _ _)

/-- No option of a command line has its value in another word, and none ends the options but two
dashes. -/
structure Reading.Plain (r : Reading α) : Prop where
  taking : ∀ word options id value, Item.taking word options id value ∉ r.items
  ended : ∀ words, r.tail ≠ .ended words

theorem Reading.Plain.swallows {r : Reading α} (h : r.Plain) : r.swallows = false := by
  rw [Reading.swallows, List.any_eq_false]
  intro item hitem
  cases item with
  | operand word => nofun
  | given word options => nofun
  | taking word options id value => exact absurd hitem (h.taking word options id value)

/-- The operands of a plain command line are seen without knowing its options. -/
theorem Reading.Of.operands_eq {specs : List (Spec α)} {words : List Text} {r : Reading α}
    (h : r.Of specs words) (hplain : r.Plain) :
    (untilTerminator words).filter isOperand = r.operands ∧
      words = untilTerminator words ++ r.tail.words := by
  have hbefore : untilTerminator words = r.items.flatMap Item.words := by
    rw [h.untilTerminator_eq hplain.swallows]
    cases htail : r.tail with
    | done => exact List.append_nil _
    | terminated rest => exact List.append_nil _
    | ended rest => exact absurd htail (hplain.ended rest)
  constructor
  · rw [hbefore]
    exact operands_eq_filter h.valid hplain.taking
  · rw [hbefore]
    exact h.words.symm

theorem exists_of_lastOn {options : List (Given α)} {p : α → Bool} (h : lastOn options p = true) :
    ∃ g ∈ options, p g.id = true ∧ g.on = true := by
  rw [lastOn, Option.any_eq_true] at h
  obtain ⟨g, hlast, hon⟩ := h
  have hmem := List.mem_of_getLast? hlast
  rw [List.mem_filter] at hmem
  exact ⟨g, hmem.1, hmem.2, hon⟩

end Agend.Library.Options
