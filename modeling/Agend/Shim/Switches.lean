import Agend.Shim.Destroys
import Agend.Shim.Hook

/-! Where `checkout` and `switch` leave HEAD: what git makes of their arguments. -/
namespace Agend.Shim

open Library Library.Options

/-- What git knows of words in the bound worktree. -/
structure Repo where
  /-- The word names a commit. -/
  commit : String → Bool
  /-- The branch that the word names as one to check out: itself, or one that was left before. -/
  branch : String → Option String
  /-- The branch that a name for a new one stands for, if it may be a name. -/
  named : String → Option String
  hasBranch : String → Bool
  /-- The text is one for yes or no. -/
  boolean : String → Bool
  /-- The paths that stand in a file. -/
  listed : String → List String
  /-- The object name of the commit that a new branch starts at. -/
  start : String

/-- What becomes of HEAD. -/
inductive Move
  | stays
  | attaches (branch : String)
  | detaches
  deriving DecidableEq

inductive Creation
  | plain
  | forced
  | orphan
  deriving DecidableEq

/-- The value of an option that is in effect. -/
def lastValue (given : List (Given GitOption)) (id : GitOption) : Option Text :=
  ((given.filter (·.id = id)).getLast?).bind fun g => if g.on then g.value else none

/-- What is left after the options. For `switch` the two dashes are only their end. -/
def gitWords (sub : String) (r : Reading GitOption) : List Text :=
  r.operands ++
    match r.tail with
    | .done => []
    | .terminated words => if sub = "switch" then words else terminator :: words
    | .ended words => words

/-- The name that `--track` gives a new branch: what follows the remote. -/
def derivedName (words : List Text) : Option String :=
  match words with
  | [] => none
  | word :: _ =>
    let strip (start : String) (word : Text) : Text :=
      if start.toList.isPrefixOf word then word.drop start.length else word
    match (strip "remotes/" (strip "refs/" word)).dropWhile (· ≠ '/') with
    | _ :: c :: rest => some (String.ofList (c :: rest))
    | _ => none

def explicitNew (given : List (Given GitOption)) : List (Creation × String) :=
  [(Creation.plain, GitOption.create), (.forced, .forceCreate), (.orphan, .orphan)].filterMap
    fun option => (lastValue given option.2).map fun name => (option.1, String.ofList name)

/-- The branch to create, if any; nothing where git refuses. -/
def newBranch (given : List (Given GitOption)) (words : List Text) :
    Option (Option (Creation × String)) :=
  match explicitNew given with
  | [] =>
    if given.any (·.id = .track) then (derivedName words).map fun name => some (.plain, name)
    else some none
  | [new] => some (some new)
  | _ => none

/-- A dash is the branch before. -/
def revision (word : Text) : String :=
  if word = ['-'] then "@\x7b-1\x7d" else String.ofList word

/-- What to switch to, and the paths. -/
def checkoutWords (repo : Repo) (words : List Text) : Option (Option String × List Text) :=
  if terminator ∈ words then
    match words.takeWhile (· ≠ terminator), (words.dropWhile (· ≠ terminator)).tail with
    | [], paths => some (none, paths)
    | [target], paths => some (some (revision target), paths)
    | _, _ => none
  else
    match words with
    | [] => some (none, [])
    | target :: paths =>
      if repo.commit (revision target) then some (some (revision target), paths)
      else some (none, target :: paths)

def switchWords (words : List Text) : Option (Option String × List Text) :=
  match words with
  | [] => some (none, [])
  | [target] => some (some (revision target), [])
  | _ => none

def targetWords (repo : Repo) (sub : String) (words : List Text) :
    Option (Option String × List Text) :=
  if sub = "switch" then switchWords words else checkoutWords repo words

/-- A call that git does not refuse outright. -/
structure SwitchPlan where
  new : Option (Creation × String)
  detach : Bool
  target : Option String
  /-- Only files are written. -/
  files : Bool
  /-- Options that do not go with changing HEAD. -/
  clash : Bool
  deriving DecidableEq

def conflictStyles : List Text := ["merge".toList, "diff3".toList, "zdiff3".toList]

def trackModes : List Text := ["direct".toList, "inherit".toList]

/-- The values that git knows for its options. -/
def valuesKnown (repo : Repo) (given : List (Given GitOption)) : Bool :=
  (lastValue given .conflict).all (· ∈ conflictStyles) &&
    given.all fun g =>
      (g.id ≠ .track || g.value.all (· ∈ trackModes)) &&
        (g.id ≠ .recurseSubmodules || g.value.all fun value => repo.boolean (String.ofList value))

def clashes (given : List (Given GitOption)) : Bool :=
  let merge := lastOn given (· = .merge) || (lastValue given .conflict).isSome
  merge && (lastOn given (· = .force) || lastOn given (· = .discardChanges)) ||
    given.any fun g => g.id ∈ [.overlay, .ours, .theirs]

/-- The paths of the call, and of the file that is named for them. -/
def allPaths (repo : Repo) (given : List (Given GitOption)) (paths : List Text) :
    Option (List Text) :=
  match lastValue given .pathspecFromFile with
  | some file =>
    if paths ≠ [] ∨ lastOn given (· = .detach) = true then none
    else some ((repo.listed (String.ofList file)).map String.toList)
  | none => if lastOn given (· = .pathspecFileNul) then none else some paths

def switchPlan (repo : Repo) (sub : String) (r : Reading GitOption) : Option SwitchPlan :=
  let given := r.options
  let words := gitWords sub r
  if !valuesKnown repo given then none
  else do
    let new ← newBranch given words
    let (target, paths) ← targetWords repo sub words
    let paths ← allPaths repo given paths
    return ⟨new, lastOn given (· = .detach), target, lastOn given (· = .patch) || paths ≠ [],
      clashes given || (lastOn given (· = .detach) && new.isSome)⟩

/-- Where a word leads that names a commit. -/
def follow (repo : Repo) (sub target : String) : Move :=
  if target = "HEAD" then .stays
  else
    match repo.branch target with
    | some branch => .attaches branch
    | none => if sub = "switch" then .stays else .detaches

namespace SwitchPlan

/-- The branch that is made; the hook sees it but for an orphan, that has no commit yet. -/
def created (p : SwitchPlan) (repo : Repo) (allows : String → Bool) (sub : String)
    (new : Creation × String) : Option String :=
  (repo.named new.2).filter fun branch =>
    (new.1 = .forced || !repo.hasBranch branch) &&
      if new.1 = .orphan then !(sub = "switch" && p.target.isSome) else allows branch

def move (p : SwitchPlan) (repo : Repo) (allows : String → Bool) (sub : String) : Move :=
  if p.files || p.clash || p.target.any (!repo.commit ·) then .stays
  else
    match p.new with
    | some new =>
      match p.created repo allows sub new with
      | some branch => .attaches branch
      | none => .stays
    | none =>
      if p.detach then .detaches
      else
        match p.target with
        | none => .stays
        | some target => follow repo sub target

/-- The arguments are about HEAD, and make another branch, or detach it, or name a commit that is
neither HEAD nor on the branch. -/
def Off (p : SwitchPlan) (repo : Repo) (allows : String → Bool) (own sub : String) : Prop :=
  p.files = false ∧ p.clash = false ∧ (∀ target ∈ p.target, repo.commit target = true) ∧
    ((∃ new branch, p.new = some new ∧ p.created repo allows sub new = some branch ∧ branch ≠ own) ∨
      p.new = none ∧ (p.detach = true ∨ ∃ target, p.target = some target ∧ target ≠ "HEAD" ∧
        (repo.branch target = none ∧ sub ≠ "switch" ∨
          ∃ branch, repo.branch target = some branch ∧ branch ≠ own)))

end SwitchPlan

/-- What git does with HEAD. -/
def gitMove (repo : Repo) (allows : String → Bool) (sub : String) (rest : List String) : Move :=
  match gitReads sub rest with
  | none => .stays
  | some r =>
    match switchPlan repo sub r with
    | none => .stays
    | some p => p.move repo allows sub

/-- HEAD is where it was, on the branch. -/
def Keeps (own : String) (m : Move) : Prop := m = .stays ∨ m = .attaches own

/-- The words are not all what the shim counts: a value stands in a word of its own, the options
end by the long word, a word follows the end of the options of `switch`, a branch is to be tracked,
or the word is the short one for HEAD, which git takes for a commit. -/
def Unseen (sub : String) (r : Reading GitOption) : Prop :=
  (∃ word options id value, Item.taking word options id value ∈ r.items) ∨
    (∃ words, r.tail = .ended words) ∨
    (sub = "switch" ∧ ∃ word words, r.tail = .terminated (word :: words)) ∨
    (∃ g ∈ r.options, g.id = .track) ∨ ['@'] ∈ r.operands

/-- Whether the hook lets a new branch be written. -/
def hookAllows (s : Snapshot) (repo : Repo) (name : String) : Bool :=
  match checkUpdate (.ok s) repo.start ("refs/heads/" ++ name) with
  | .ok () => true
  | .error _ => false

/-- The probe answers what git knows, and the branch is there. -/
structure Answers (probe : Probe) (repo : Repo) (own : String) : Prop where
  commit : ∀ word, (probe.git ["rev-parse", "--verify", "-q", word ++ "^\x7bcommit\x7d"]).isSome =
    repo.commit word
  previous : ∀ word full, probe.git ["rev-parse", "--symbolic-full-name", word] = some full →
    stripPrefix "refs/heads/" full = some own → repo.branch word = some own
  own : repo.branch own = some own

theorem keeps_follow_iff {repo : Repo} {own sub target : String} :
    Keeps own (follow repo sub target) ↔ ¬(target ≠ "HEAD" ∧
      (repo.branch target = none ∧ sub ≠ "switch" ∨
        ∃ branch, repo.branch target = some branch ∧ branch ≠ own)) := by
  unfold Keeps follow
  by_cases hhead : target = "HEAD"
  · simp [hhead]
  · rw [if_neg hhead]
    cases hbranch : repo.branch target with
    | some branch => simp [hhead]
    | none => by_cases hsub : sub = "switch" <;> simp [hhead, hsub]

theorem keeps_move_iff {p : SwitchPlan} {repo : Repo} {allows : String → Bool} {own sub : String} :
    Keeps own (p.move repo allows sub) ↔ ¬ p.Off repo allows own sub := by
  unfold SwitchPlan.move SwitchPlan.Off
  by_cases hstop : (p.files || p.clash || p.target.any (!repo.commit ·)) = true
  · rw [if_pos hstop]
    constructor
    · intro _ hoff
      obtain ⟨hfiles, hclash, htarget, _⟩ := hoff
      rw [hfiles, hclash] at hstop
      simp only [Bool.or_self, Bool.false_or, Option.any_eq_true, Bool.not_eq_true'] at hstop
      obtain ⟨target, hmem, hno⟩ := hstop
      rw [htarget target hmem] at hno
      cases hno
    · intro _
      exact .inl rfl
  · rw [if_neg hstop]
    simp only [Bool.or_eq_true, not_or, Bool.not_eq_true, Option.any_eq_false] at hstop
    obtain ⟨⟨hfiles, hclash⟩, htarget⟩ := hstop
    have hcommits : ∀ target, p.target = some target → repo.commit target = true := by
      intro target hmem
      simpa using htarget target hmem
    cases hnew : p.new with
    | some new =>
      cases hcreated : p.created repo allows sub new with
      | none => simp [Keeps, hcreated]
      | some branch =>
        have hor : (∀ target, p.target = some target → repo.commit target = true) ∨
          branch = own := .inl hcommits
        simpa [Keeps, hcreated, hfiles, hclash] using hor
    | none =>
      by_cases hdetach : p.detach = true
      · simpa [Keeps, hdetach, hfiles, hclash] using hcommits
      · cases hword : p.target with
        | none => simp [Keeps, hdetach]
        | some target =>
          have hcommit := hcommits target hword
          have hfollow : Keeps own (follow repo sub target) ↔ _ := keeps_follow_iff
          simp [hdetach, hfiles, hclash, hcommit, hfollow]

/-! What the shim lets through. -/

theorem isOperand_eq (arg : String) :
    isOperand arg.toList = (!startsWith "-" arg || arg = "-") := by
  have hdash : (decide (arg.toList = ['-'])) = decide (arg = "-") := by
    rw [decide_eq_decide, ← String.toList_inj]
    exact Iff.rfl
  rw [isOperand, hdash, startsWith]
  congr 1
  cases arg.toList with
  | nil => rfl
  | cons c rest =>
    by_cases hc : c = '-'
    · subst hc
      rfl
    · change decide (some c ≠ some '-') = !('-' == c && true)
      simp [hc, Ne.symm hc]

/-- The words that the shim counts. -/
def positionals (rest : List String) : List String :=
  (options rest).filter fun a => !startsWith "-" a || a = "-"

theorem map_positionals (rest : List String) :
    (positionals rest).map String.toList =
      (untilTerminator (rest.map String.toList)).filter isOperand := by
  rw [map_options, positionals, List.filter_map]
  congr 1
  apply List.filter_congr
  intro arg _
  exact (isOperand_eq arg).symm

/-- The long options and the letters by which `sub` leaves the branch. -/
def leaving (sub : String) : List String × String :=
  if sub = "switch" then (["--detach", "--orphan", "--create", "--force-create"], "cCd")
  else (["--detach", "--orphan"], "bBd")

/-- What is known of a call that does not leave the branch, by the words it counts. -/
structure Counted (sub : String) (rest : List String) (b : Binding) (probe : Probe) : Prop where
  options : ∀ a ∈ options rest, (leaving sub).1.any (long a) = false ∧
    short a (leaving sub).2 = false
  checkout : sub = "checkout" → ∀ target, positionals rest = [target] →
    (rest.contains "--" = true ∧ (Shim.options rest).length + 1 < rest.length) ∨
      rest.contains "--" = false ∧ (previous target).isSome = false ∧
        (probe.git ["rev-parse", "--verify", "-q", target ++ "^\x7bcommit\x7d"]).isSome = false ∨
      stays target b probe = true
  switch : sub = "switch" → ∀ target more, positionals rest = target :: more →
    stays target b probe = true

theorem find_options_eq_none {rest : List String} {longs : List String} {letters : String}
    (h : (options rest).find? (fun a => longs.any (long a) || short a letters) = none) :
    ∀ a ∈ options rest, longs.any (long a) = false ∧ short a letters = false := by
  intro a ha
  have hnone := List.find?_eq_none.mp h a ha
  rwa [Bool.not_eq_true, Bool.or_eq_false_iff] at hnone

theorem stays_of_leaves {target : String} {b : Binding} {probe : Probe}
    (h : (if stays target b probe = true then none else some target) = none) :
    stays target b probe = true := by
  by_contra hno
  rw [if_neg hno] at h
  cases h

theorem counted_checkout {rest : List String} {b : Binding} {probe : Probe}
    (h : leavesBranch "checkout" rest b probe = none) : Counted "checkout" rest b probe := by
  unfold leavesBranch at h
  cases hfind : (options rest).find?
      (fun a => ["--detach", "--orphan"].any (long a) || short a "bBd") with
  | some flag =>
    simp only [hfind] at h
    cases h
  | none =>
    simp only [hfind] at h
    refine ⟨find_options_eq_none hfind, ?_, nofun⟩
    intro _ target htarget
    have hpos : (options rest).filter (fun a => !startsWith "-" a || decide (a = "-")) = [target] :=
      htarget
    rw [hpos] at h
    simp only [ne_eq, not_true_eq_false, or_false] at h
    split at h
    · rename_i hpaths
      rw [Bool.and_eq_true, decide_eq_true_eq] at hpaths
      exact .inl hpaths
    · split at h
      · rename_i hnone
        obtain ⟨hdash, hnames⟩ := hnone
        rw [Bool.or_eq_false_iff] at hnames
        exact .inr (.inl ⟨hdash, hnames⟩)
      · exact .inr (.inr (stays_of_leaves h))

theorem counted_switch {rest : List String} {b : Binding} {probe : Probe}
    (h : leavesBranch "switch" rest b probe = none) : Counted "switch" rest b probe := by
  unfold leavesBranch at h
  cases hfind : (options rest).find? (fun a =>
      ["--detach", "--orphan", "--create", "--force-create"].any (long a) || short a "cCd") with
  | some flag =>
    simp only [hfind] at h
    cases h
  | none =>
    simp only [hfind] at h
    refine ⟨find_options_eq_none hfind, nofun, ?_⟩
    intro _ target more htarget
    have hpos : (options rest).filter (fun a => !startsWith "-" a || decide (a = "-")) =
        target :: more := htarget
    rw [hpos] at h
    exact stays_of_leaves h

theorem counted_of_leavesBranch {sub : String} {rest : List String} {b : Binding} {probe : Probe}
    (hsub : sub = "checkout" ∨ sub = "switch") (h : leavesBranch sub rest b probe = none) :
    Counted sub rest b probe := by
  rcases hsub with heq | heq <;> subst heq
  · exact counted_checkout h
  · exact counted_switch h

theorem dash_previous : previous "-" = some "@\x7b-1\x7d" := by
  decide

/-- A branch before is the same revision to git. -/
theorem revision_of_previous {target rev : String} (h : previous target = some rev) :
    revision target.toList = rev := by
  by_cases hdash : target = "-"
  · rw [hdash, dash_previous] at h
    rw [hdash, ← Option.some.inj h]
    rfl
  · have hword : target.toList ≠ ['-'] := by
      intro heq
      exact hdash (String.toList_inj.mp heq)
    rw [revision, if_neg hword, String.ofList_toList]
    unfold previous at h
    rw [if_neg hdash] at h
    cases hstrip : stripPrefix "@\x7b-" target with
    | none =>
      rw [hstrip] at h
      cases h
    | some n =>
      rw [hstrip] at h
      by_cases hlast : n.toList.getLast? = some '\x7d'
      · simp only [if_pos hlast] at h
        split at h
        · have htarget := stripPrefix_iff.mp hstrip
          obtain ⟨digits, hdigits⟩ := List.getLast?_eq_some_iff.mp hlast
          rw [hdigits, List.dropLast_concat] at h
          rw [htarget, ← Option.some.inj h, ← String.toList_inj]
          simp only [String.toList_append, String.toList_ofList, hdigits, List.append_assoc]
          rfl
        · cases h
      · simp only [if_neg hlast] at h
        cases h

theorem revision_eq {target : String} (h : previous target = none) :
    revision target.toList = target := by
  have hword : target.toList ≠ ['-'] := by
    intro heq
    have hdash : target = "-" := String.toList_inj.mp heq
    rw [hdash, dash_previous] at h
    cases h
  rw [revision, if_neg hword, String.ofList_toList]

/-- A word that stays is HEAD, or the branch. -/
theorem home_of_stays {target own taskId wt : String} {probe : Probe} {repo : Repo}
    (hanswers : Answers probe repo own) (hat : target ≠ "@")
    (h : stays target (.work taskId own wt) probe = true) :
    revision target.toList = "HEAD" ∨ repo.branch (revision target.toList) = some own := by
  unfold stays at h
  by_cases hhead : target = "HEAD"
  · rw [hhead]
    exact .inl rfl
  · rw [if_neg (not_or.mpr ⟨hhead, hat⟩)] at h
    right
    cases hprevious : previous target with
    | some rev =>
      simp only [Binding.branch, hprevious, Option.any_eq_true, decide_eq_true_eq] at h
      obtain ⟨full, hfull, hstrip⟩ := h
      rw [revision_of_previous hprevious]
      exact hanswers.previous rev full hfull hstrip
    | none =>
      simp only [Binding.branch, hprevious, decide_eq_true_eq] at h
      rw [revision_eq hprevious, h]
      exact hanswers.own

/-! The options of a call that is let through. -/

def leavingOptions : List GitOption := [.create, .forceCreate, .orphan, .detach]

/-- Each option that leaves the branch is one that the shim looks for. -/
theorem named_leaving {sub : String} {specs : List (Spec GitOption)}
    (hsub : sub = "checkout" ∨ sub = "switch") (hspecs : gitOptions sub = some specs)
    {id : GitOption} (hid : id ∈ leavingOptions) :
    ∃ name, "--" ++ name ∈ (leaving sub).1 ∧ Named specs id name (leaving sub).2 := by
  simp only [leavingOptions, List.mem_cons, List.not_mem_nil, or_false] at hid
  rcases hsub with heq | heq
  · subst heq
    cases hspecs
    rcases hid with heq | heq | heq | heq <;> subst heq
    · exact ⟨"detach", by decide, .of_letters (by decide) (by decide) (.inl (by decide))⟩
    · exact ⟨"detach", by decide, .of_letters (by decide) (by decide) (.inl (by decide))⟩
    · exact ⟨"orphan", by decide, .of_letters (by decide) (by decide) (.inl (by decide))⟩
    · exact ⟨"detach", by decide, .of_letters (by decide) (by decide) (.inl (by decide))⟩
  · subst heq
    cases hspecs
    rcases hid with heq | heq | heq | heq <;> subst heq
    · exact ⟨"create", by decide, .of_letters (by decide) (by decide) (.inl (by decide))⟩
    · exact ⟨"force-create", by decide, .of_letters (by decide) (by decide) (.inr (by decide))⟩
    · exact ⟨"orphan", by decide, .of_letters (by decide) (by decide) (.inl (by decide))⟩
    · exact ⟨"detach", by decide, .of_letters (by decide) (by decide) (.inl (by decide))⟩

theorem off_of_counted {sub : String} {rest : List String} {b : Binding} {probe : Probe}
    {r : Reading GitOption} (hsub : sub = "checkout" ∨ sub = "switch")
    (hcounted : Counted sub rest b probe) (hread : gitReads sub rest = some r)
    (hswallows : r.swallows = false) {g : Given GitOption} (hg : g ∈ r.options)
    (hid : g.id ∈ leavingOptions) : g.on = false := by
  rw [Bool.eq_false_iff]
  intro hon
  obtain ⟨specs, hspecs⟩ : ∃ specs, gitOptions sub = some specs := by
    rcases hsub with heq | heq <;> subst heq <;> exact ⟨_, rfl⟩
  obtain ⟨name, hname, hnamed⟩ := named_leaving hsub hspecs hid
  rcases exists_match hspecs hread hswallows hnamed hg rfl hon with hlong | hshort
  · obtain ⟨arg, harg, hlong⟩ := List.any_eq_true.mp hlong
    have hnone := (hcounted.options arg harg).1
    rw [List.any_eq_false] at hnone
    exact hnone _ hname hlong
  · obtain ⟨arg, harg, hshort⟩ := List.any_eq_true.mp hshort
    rw [(hcounted.options arg harg).2] at hshort
    cases hshort

theorem lastOn_eq_false {given : List (Given GitOption)} {id : GitOption}
    (h : ∀ g ∈ given, g.id = id → g.on = false) : lastOn given (· = id) = false := by
  rw [Bool.eq_false_iff]
  intro hlast
  obtain ⟨g, hg, hid, hon⟩ := exists_of_lastOn hlast
  rw [h g hg (of_decide_eq_true hid)] at hon
  cases hon

theorem lastValue_eq_none {given : List (Given GitOption)} {id : GitOption}
    (h : ∀ g ∈ given, g.id = id → g.on = false) : lastValue given id = none := by
  rw [lastValue]
  cases hlast : (given.filter (·.id = id)).getLast? with
  | none => rfl
  | some g =>
    have hg := List.mem_of_getLast? hlast
    rw [List.mem_filter, decide_eq_true_eq] at hg
    have hoff := h g hg.1 hg.2
    simp [hoff]

/-- Without an option that leaves the branch, a plan is only a target or paths. -/
theorem plan_of_off {repo : Repo} {sub : String} {r : Reading GitOption} {p : SwitchPlan}
    (hoff : ∀ g ∈ r.options, g.id ∈ leavingOptions → g.on = false)
    (htrack : ∀ g ∈ r.options, g.id ≠ .track) (hplan : switchPlan repo sub r = some p) :
    p.new = none ∧ p.detach = false ∧
      ∃ paths, targetWords repo sub (gitWords sub r) = some (p.target, paths) ∧
        (p.files = false → paths = []) := by
  have hvalue : ∀ id ∈ leavingOptions, lastValue r.options id = none := by
    intro id hid
    apply lastValue_eq_none
    intro g hg heq
    exact hoff g hg (heq ▸ hid)
  have hexplicit : explicitNew r.options = [] := by
    simp [explicitNew, hvalue .create (by decide), hvalue .forceCreate (by decide),
      hvalue .orphan (by decide)]
  have hnone : (r.options.any fun g => g.id = .track) = false := by
    rw [List.any_eq_false]
    intro g hg
    simpa using htrack g hg
  have hnew : newBranch r.options (gitWords sub r) = some none := by
    rw [newBranch, hexplicit]
    simp [hnone]
  have hdetach : lastOn r.options (· = .detach) = false := by
    apply lastOn_eq_false
    intro g hg heq
    exact hoff g hg (heq ▸ by decide)
  unfold switchPlan at hplan
  simp only [hnew, hdetach] at hplan
  split at hplan
  · cases hplan
  · cases hwords : targetWords repo sub (gitWords sub r) with
    | none =>
      rw [hwords] at hplan
      cases hplan
    | some words =>
      rw [hwords] at hplan
      cases hpaths : allPaths repo r.options words.2 with
      | none =>
        simp only [Option.bind_eq_bind, Option.bind_some, hpaths, Option.bind_none] at hplan
        cases hplan
      | some paths =>
        simp only [Option.bind_eq_bind, Option.bind_some, hpaths] at hplan
        cases hplan
        refine ⟨rfl, rfl, words.2, rfl, ?_⟩
        intro hfiles
        rw [Bool.or_eq_false_iff, decide_eq_false_iff_not, not_not] at hfiles
        unfold allPaths at hpaths
        cases hfile : lastValue r.options .pathspecFromFile with
        | some file =>
          simp only [hfile] at hpaths
          split at hpaths
          · cases hpaths
          · rename_i hor
            exact not_not.mp (not_or.mp hor).1
        | none =>
          rw [hfile] at hpaths
          simp only at hpaths
          split at hpaths
          · cases hpaths
          · exact (Option.some.inj hpaths).trans hfiles.2

/-- The words that git is left with are the ones that the shim counts. -/
theorem words_of_plain {sub : String} {rest : List String} {r : Reading GitOption}
    (hread : gitReads sub rest = some r) (hplain : r.Plain) :
    r.operands = (positionals rest).map String.toList ∧
      rest.map String.toList = (options rest).map String.toList ++ r.tail.words := by
  rw [gitReads, Option.bind_eq_some_iff] at hread
  obtain ⟨specs, _, hread⟩ := hread
  obtain ⟨hoperands, hwords⟩ := (of_read hread).operands_eq hplain
  constructor
  · rw [map_positionals, hoperands]
  · rw [← map_options]
    exact hwords

theorem terminator_notMem (rest : List String) :
    terminator ∉ (positionals rest).map String.toList := by
  rw [map_positionals, List.mem_filter]
  intro h
  exact absurd h.2 (by decide)

theorem home_checkout {rest : List String} {r : Reading GitOption} {repo : Repo}
    {own taskId wt : String} {probe : Probe} (hanswers : Answers probe repo own)
    (hcounted : Counted "checkout" rest (.work taskId own wt) probe)
    (hread : gitReads "checkout" rest = some r) (hplain : r.Plain) (hat : ['@'] ∉ r.operands)
    {target : String} (hcommit : repo.commit target = true)
    (hwords : checkoutWords repo (gitWords "checkout" r) = some (some target, [])) :
    target = "HEAD" ∨ repo.branch target = some own := by
  obtain ⟨hoperands, hrest⟩ := words_of_plain hread hplain
  have hnotMem := terminator_notMem rest
  rw [← hoperands] at hnotMem
  have hcount : (rest.map String.toList).length = (options rest).length + r.tail.words.length := by
    rw [hrest, List.length_append, List.length_map]
  rw [List.length_map] at hcount
  have hone : ∀ word, positionals rest = [word] → target = revision word.toList →
      r.tail.words.length ≤ 1 → target = "HEAD" ∨ repo.branch target = some own := by
    intro word hword htarget htail
    rcases hcounted.checkout rfl word hword with hpaths | hnone | hstays
    · obtain ⟨_, hlength⟩ := hpaths
      omega
    · obtain ⟨_, hprevious, hprobe⟩ := hnone
      rw [Option.isSome_eq_false_iff, Option.isNone_iff_eq_none] at hprevious
      rw [htarget, revision_eq hprevious, ← hanswers.commit, hprobe] at hcommit
      cases hcommit
    · have hne : word ≠ "@" := by
        intro heq
        apply hat
        rw [hoperands, hword, heq]
        exact List.mem_singleton_self _
      exact htarget ▸ home_of_stays hanswers hne hstays
  have hmap : ∀ text, r.operands = [text] → ∃ word, positionals rest = [word] ∧
      word.toList = text := by
    intro text htext
    rw [hoperands, List.map_eq_singleton_iff] at htext
    exact htext
  cases htail : r.tail with
  | ended words => exact absurd htail (hplain.ended words)
  | done =>
    have hgit : gitWords "checkout" r = r.operands := by
      rw [gitWords, htail]
      exact List.append_nil _
    rw [hgit] at hwords
    unfold checkoutWords at hwords
    rw [if_neg hnotMem] at hwords
    cases hoperand : r.operands with
    | nil =>
      rw [hoperand] at hwords
      cases hwords
    | cons text paths =>
      simp only [hoperand] at hwords
      split at hwords
      · cases hwords
        obtain ⟨word, hword, htext⟩ := hmap text hoperand
        exact hone word hword (htext ▸ rfl) (by rw [htail]; exact Nat.zero_le _)
      · cases hwords
  | terminated words =>
    have hgit : gitWords "checkout" r = r.operands ++ terminator :: words := by
      rw [gitWords, htail]
      rfl
    have hne : ∀ text ∈ r.operands, decide (text ≠ terminator) = true := by
      intro text htext
      rw [decide_eq_true_eq]
      intro heq
      exact hnotMem (heq ▸ htext)
    have htake : (r.operands ++ terminator :: words).takeWhile (· ≠ terminator) = r.operands := by
      rw [List.takeWhile_append_of_pos hne, List.takeWhile_cons_of_neg (by simp),
        List.append_nil]
    have hdrop : (r.operands ++ terminator :: words).dropWhile (· ≠ terminator) =
        terminator :: words := by
      rw [List.dropWhile_append_of_pos hne, List.dropWhile_cons_of_neg (by simp)]
    have hmem : terminator ∈ r.operands ++ terminator :: words :=
      List.mem_append_right _ (List.mem_cons_self ..)
    rw [hgit] at hwords
    unfold checkoutWords at hwords
    rw [if_pos hmem, htake, hdrop, List.tail_cons] at hwords
    cases hoperand : r.operands with
    | nil =>
      rw [hoperand] at hwords
      cases hwords
    | cons text more =>
      cases more with
      | cons next more =>
        rw [hoperand] at hwords
        cases hwords
      | nil =>
        rw [hoperand] at hwords
        cases hwords
        obtain ⟨word, hword, htext⟩ := hmap text hoperand
        exact hone word hword (htext ▸ rfl) (by rw [htail]; exact Nat.le_refl _)

theorem home_switch {rest : List String} {r : Reading GitOption} {repo : Repo}
    {own taskId wt : String} {probe : Probe} (hanswers : Answers probe repo own)
    (hcounted : Counted "switch" rest (.work taskId own wt) probe)
    (hread : gitReads "switch" rest = some r) (hplain : r.Plain) (hat : ['@'] ∉ r.operands)
    (hempty : ∀ word words, r.tail ≠ .terminated (word :: words)) {target : String}
    {paths : List Text} (hwords : switchWords (gitWords "switch" r) = some (some target, paths)) :
    target = "HEAD" ∨ repo.branch target = some own := by
  obtain ⟨hoperands, _⟩ := words_of_plain hread hplain
  have hgit : gitWords "switch" r = r.operands := by
    cases htail : r.tail with
    | ended words => exact absurd htail (hplain.ended words)
    | done =>
      rw [gitWords, htail]
      exact List.append_nil _
    | terminated words =>
      cases words with
      | cons word words => exact absurd htail (hempty word words)
      | nil =>
        rw [gitWords, htail]
        exact List.append_nil _
  rw [hgit, hoperands] at hwords
  cases hwordsOf : positionals rest with
  | nil =>
    rw [hwordsOf] at hwords
    cases hwords
  | cons word more =>
    cases more with
    | cons next more =>
      rw [hwordsOf] at hwords
      cases hwords
    | nil =>
      rw [hwordsOf] at hwords
      cases hwords
      have hne : word ≠ "@" := by
        intro heq
        apply hat
        rw [hoperands, hwordsOf, heq]
        exact List.mem_singleton_self _
      exact home_of_stays hanswers hne (hcounted.switch rfl word [] hwordsOf)

/-- Where the shim counts all the words, what it lets through stays. -/
theorem not_off_of_seen {sub : String} {rest : List String} {r : Reading GitOption} {repo : Repo}
    {own taskId wt : String} {probe : Probe} {allows : String → Bool} {p : SwitchPlan}
    (hsub : sub = "checkout" ∨ sub = "switch") (hanswers : Answers probe repo own)
    (hcounted : Counted sub rest (.work taskId own wt) probe)
    (hread : gitReads sub rest = some r) (hplan : switchPlan repo sub r = some p)
    (hseen : ¬ Unseen sub r) : ¬ p.Off repo allows own sub := by
  simp only [Unseen, not_or] at hseen
  obtain ⟨htaking, hended, hempty, htrack, hat⟩ := hseen
  have hplain : r.Plain := by
    constructor
    · intro word options id value hmem
      exact htaking ⟨word, options, id, value, hmem⟩
    · intro words heq
      exact hended ⟨words, heq⟩
  have hoff : ∀ g ∈ r.options, g.id ∈ leavingOptions → g.on = false := by
    intro g hg hid
    exact off_of_counted hsub hcounted hread hplain.swallows hg hid
  have hnotTrack : ∀ g ∈ r.options, g.id ≠ .track := by
    intro g hg heq
    exact htrack ⟨g, hg, heq⟩
  obtain ⟨hnew, hdetach, paths, hwords, hpaths⟩ := plan_of_off hoff hnotTrack hplan
  intro hisOff
  obtain ⟨hfiles, _, hcommits, hmoves⟩ := hisOff
  rcases hmoves with hcreated | ⟨_, hmoves⟩
  · obtain ⟨new, _, hsome, _⟩ := hcreated
    rw [hnew] at hsome
    cases hsome
  · rcases hmoves with htrue | ⟨target, htarget, hhead, hbranch⟩
    · rw [hdetach] at htrue
      cases htrue
    · have hhome : target = "HEAD" ∨ repo.branch target = some own := by
        rw [htarget] at hwords
        rcases hsub with heq | heq
        · subst heq
          rw [hpaths hfiles] at hwords
          exact home_checkout hanswers hcounted hread hplain hat (hcommits target htarget) hwords
        · subst heq
          have hnone : ∀ word words, r.tail ≠ .terminated (word :: words) := by
            intro word words heq
            exact hempty ⟨rfl, word, words, heq⟩
          exact home_switch hanswers hcounted hread hplain hat hnone hwords
      rcases hhome with heq | howned
      · exact hhead heq
      · rcases hbranch with ⟨hnone, _⟩ | ⟨branch, hsome, hne⟩
        · rw [howned] at hnone
          cases hnone
        · rw [howned] at hsome
          exact hne (Option.some.inj hsome).symm

theorem leavesBranch_of_letsWrite {i : Input} {sub : String} {run : Run} {s : Snapshot}
    {b : Binding} (h : LetsWrite i sub run) (hnested : i.location ≠ .nested)
    (hs : i.snapshot = .ok s) (hb : s.binding = some b) :
    leavesBranch sub i.args.rest b i.probe = none := by
  obtain ⟨_, _, _, hwrite⟩ := classify_eq_ok h.named h.asked h.inside hnested h.notRead h.run
  obtain ⟨s', b', hpassed⟩ := write_eq_ok hwrite
  have hsame : s' = s := Except.ok.inj (hpassed.snapshot.symm.trans hs)
  have hbinding := hpassed.binding
  rw [hsame, hb] at hbinding
  have hcall := hpassed.call
  unfold checkCall at hcall
  rw [bind_eq_ok] at hcall
  obtain ⟨_, hleaves, _⟩ := hcall
  rw [← Option.some.inj hbinding] at hleaves
  cases hnone : leavesBranch sub i.args.rest b i.probe with
  | none => rfl
  | some target =>
    rw [hnone] at hleaves
    cases hleaves

/-- A call that is let through keeps HEAD on the branch, unless the shim counts other words than
git, and git's name another branch or a commit. -/
theorem head_exact (i : Input) (sub : String) (run : Run) (s : Snapshot) (repo : Repo)
    (taskId own wt : String) (h : LetsWrite i sub run) (hnested : i.location ≠ .nested)
    (hsub : sub = "checkout" ∨ sub = "switch") (hs : i.snapshot = .ok s)
    (hb : s.binding = some (.work taskId own wt)) (hanswers : Answers i.probe repo own) :
    Keeps own (gitMove repo (hookAllows s repo) sub i.args.rest) ↔
      ¬ ∃ r p, gitReads sub i.args.rest = some r ∧ switchPlan repo sub r = some p ∧
        Unseen sub r ∧ p.Off repo (hookAllows s repo) own sub := by
  have hcounted := counted_of_leavesBranch hsub (leavesBranch_of_letsWrite h hnested hs hb)
  unfold gitMove
  cases hread : gitReads sub i.args.rest with
  | none => simp [Keeps]
  | some r =>
    cases hplan : switchPlan repo sub r with
    | none => simp [Keeps, hplan]
    | some p =>
      simp only [hplan, Option.some_inj, keeps_move_iff]
      constructor
      · intro hnot hboth
        obtain ⟨r', p', heq, hplan', _, hoff⟩ := hboth
        subst heq
        rw [hplan] at hplan'
        cases hplan'
        exact hnot hoff
      · intro hnot hoff
        by_cases hunseen : Unseen sub r
        · exact hnot ⟨r, p, rfl, hplan, hunseen, hoff⟩
        · exact not_off_of_seen hsub hanswers hcounted hread hplan hunseen hoff

/-! A worktree with the branch of the task, beside `main`. -/

def known : List String := ["HEAD", "main", "agend/t/x"]

def exampleRepo : Repo where
  commit word := word ∈ known
  branch word := if word ∈ ["main", "agend/t/x"] then some word else none
  named := some
  hasBranch word := word ∈ ["main", "agend/t/x"]
  boolean _ := false
  listed _ := []
  start := "1"

def exampleProbe : Probe where
  isTeamRepo := false
  isTeamRemote _ := false
  git
    | ["rev-parse", "--verify", "-q", revision] =>
      if revision ∈ known.map (· ++ "^\x7bcommit\x7d") then some "1" else none
    | _ => none
  hooksInstalled := true

theorem exampleProbe_answers : Answers exampleProbe exampleRepo "agend/t/x" := by
  constructor
  · intro word
    have hinjective : Function.Injective fun word : String => word ++ "^\x7bcommit\x7d" := by
      intro a b hab
      rw [← String.toList_inj] at hab ⊢
      rw [String.toList_append, String.toList_append] at hab
      exact List.append_cancel_right hab
    have hmem := List.mem_map_of_injective hinjective (a := word) (l := known)
    change (if word ++ "^\x7bcommit\x7d" ∈ known.map (· ++ "^\x7bcommit\x7d") then some "1"
      else none).isSome = decide (word ∈ known)
    by_cases hword : word ∈ known
    · rw [if_pos (hmem.mpr hword), decide_eq_true hword]
      rfl
    · rw [if_neg fun h => hword (hmem.mp h), decide_eq_false hword]
      rfl
  · intro word full hfull
    cases hfull
  · decide

def inExample (words : List String) : Input := { inWorktree words with probe := exampleProbe }

def exampleSnapshot : Snapshot :=
  ⟨"a", some "/repo", [], some (.work "t" "agend/t/x" "/wt/a")⟩

theorem head_exact_own :
    Keeps "agend/t/x" (gitMove exampleRepo (hookAllows exampleSnapshot exampleRepo) "checkout"
        ["agend/t/x"]) ↔
      ¬ ∃ r p, gitReads "checkout" ["agend/t/x"] = some r ∧
        switchPlan exampleRepo "checkout" r = some p ∧ Unseen "checkout" r ∧
        p.Off exampleRepo (hookAllows exampleSnapshot exampleRepo) "agend/t/x" "checkout" :=
  head_exact (inExample ["checkout", "agend/t/x"]) "checkout" ⟨none, some "checkout", none⟩
    exampleSnapshot exampleRepo "t" "agend/t/x" "/wt/a"
    ⟨by decide, by decide, by decide, by decide, by decide⟩ (by decide)
    (.inl rfl) rfl rfl exampleProbe_answers

/-- The branch stands behind two dashes, where the shim counts nothing. -/
theorem switch_leaves :
    LetsWrite (inExample ["switch", "--", "main"]) "switch" ⟨none, none, none⟩ ∧
      Answers exampleProbe exampleRepo "agend/t/x" ∧
      ¬ Keeps "agend/t/x" (gitMove exampleRepo (hookAllows exampleSnapshot exampleRepo) "switch"
        ["--", "main"]) := by
  have hmove : gitMove exampleRepo (hookAllows exampleSnapshot exampleRepo) "switch"
      ["--", "main"] = .attaches "main" := by decide
  refine ⟨⟨by decide, by decide, by decide, by decide, by decide⟩,
    exampleProbe_answers, ?_⟩
  rw [hmove]
  unfold Keeps
  decide

end Agend.Shim
