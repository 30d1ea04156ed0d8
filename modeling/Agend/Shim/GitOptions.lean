import Agend.Library.Options
import Agend.Shim.Args

/-! The options that git documents for the commands that write the work tree, and how the shim's
matching of words compares with git's reading of them. -/
namespace Agend.Shim

open Library.Options

inductive GitOption
  | quiet | progress | patch | merge | conflict | overlay | ours | theirs | recurseSubmodules
  | ignoreSkipWorktreeBits | pathspecFromFile | pathspecFileNul
  | refresh | mixed | soft | hard | mergeMode | keep | intentToAdd
  | dryRun | force | interactive | directories | exclude | ignored | onlyIgnored
  | create | forceCreate | orphan | reflog | guess | detach | track | overwriteIgnore
  | ignoreOtherWorktrees | discardChanges
  | source | staged | worktree | ignoreUnmerged
  | cached | recursive | ignoreUnmatch | sparse
  | verbose | skipErrors
  deriving DecidableEq

def flag (id : GitOption) (name : String) (letter : Option Char) : Spec GitOption :=
  ⟨id, some name.toList, letter, .never, true⟩

/-- A flag without a negation. -/
def mode (id : GitOption) (name : String) (letter : Option Char) : Spec GitOption :=
  ⟨id, some name.toList, letter, .never, false⟩

def letter (id : GitOption) (c : Char) (takes : Takes) : Spec GitOption :=
  ⟨id, none, some c, takes, false⟩

def valued (id : GitOption) (name : String) (letter : Option Char) (takes : Takes) :
    Spec GitOption :=
  ⟨id, some name.toList, letter, takes, true⟩

def pathspecOptions : List (Spec GitOption) :=
  [valued .pathspecFromFile "pathspec-from-file" none .must,
    flag .pathspecFileNul "pathspec-file-nul" none]

def resetOptions : List (Spec GitOption) :=
  [flag .quiet "quiet" (some 'q'), flag .refresh "refresh" none, mode .mixed "mixed" none,
    mode .soft "soft" none, mode .hard "hard" none, mode .mergeMode "merge" none,
    mode .keep "keep" none, valued .recurseSubmodules "recurse-submodules" none .may,
    flag .patch "patch" (some 'p'), flag .intentToAdd "intent-to-add" (some 'N')] ++
    pathspecOptions

def cleanOptions : List (Spec GitOption) :=
  [flag .quiet "quiet" (some 'q'), flag .dryRun "dry-run" (some 'n'),
    flag .force "force" (some 'f'), flag .interactive "interactive" (some 'i'),
    letter .directories 'd' .never, ⟨.exclude, some "exclude".toList, some 'e', .must, false⟩,
    letter .ignored 'x' .never, letter .onlyIgnored 'X' .never]

/-- What `checkout` and its two parts share. -/
def checkoutCommon : List (Spec GitOption) :=
  [flag .quiet "quiet" (some 'q'), valued .recurseSubmodules "recurse-submodules" none .may,
    flag .progress "progress" none, flag .merge "merge" (some 'm'),
    valued .conflict "conflict" none .must]

def switchCommon : List (Spec GitOption) :=
  [flag .detach "detach" (some 'd'), valued .track "track" (some 't') .may,
    flag .force "force" (some 'f'), valued .orphan "orphan" none .must,
    flag .overwriteIgnore "overwrite-ignore" none,
    flag .ignoreOtherWorktrees "ignore-other-worktrees" none, flag .guess "guess" none]

def restoreCommon : List (Spec GitOption) :=
  [mode .ours "ours" (some '2'), mode .theirs "theirs" (some '3'), flag .patch "patch" (some 'p'),
    flag .ignoreSkipWorktreeBits "ignore-skip-worktree-bits" none, flag .overlay "overlay" none] ++
    pathspecOptions

def checkoutOptions : List (Spec GitOption) :=
  [letter .create 'b' .must, letter .forceCreate 'B' .must, letter .reflog 'l' .never] ++
    checkoutCommon ++ switchCommon ++ restoreCommon

def switchOptions : List (Spec GitOption) :=
  [valued .create "create" (some 'c') .must, valued .forceCreate "force-create" (some 'C') .must,
    flag .discardChanges "discard-changes" none] ++ checkoutCommon ++ switchCommon

def restoreOptions : List (Spec GitOption) :=
  [valued .source "source" (some 's') .must, flag .staged "staged" (some 'S'),
    flag .worktree "worktree" (some 'W'), flag .ignoreUnmerged "ignore-unmerged" none] ++
    checkoutCommon ++ restoreCommon

def rmOptions : List (Spec GitOption) :=
  [flag .dryRun "dry-run" (some 'n'), flag .quiet "quiet" (some 'q'), flag .cached "cached" none,
    flag .force "force" (some 'f'), letter .recursive 'r' .never,
    flag .ignoreUnmatch "ignore-unmatch" none, flag .sparse "sparse" none] ++ pathspecOptions

def mvOptions : List (Spec GitOption) :=
  [flag .verbose "verbose" (some 'v'), flag .dryRun "dry-run" (some 'n'),
    flag .force "force" (some 'f'), letter .skipErrors 'k' .never, flag .sparse "sparse" none]

def gitOptions : String → Option (List (Spec GitOption))
  | "reset" => some resetOptions
  | "clean" => some cleanOptions
  | "checkout" => some checkoutOptions
  | "restore" => some restoreOptions
  | "switch" => some switchOptions
  | "rm" => some rmOptions
  | "mv" => some mvOptions
  | _ => none

/-- How git reads the words after one of these subcommands; nothing where it refuses them. -/
def gitReads (sub : String) (rest : List String) : Option (Reading GitOption) :=
  (gitOptions sub).bind fun specs => read specs (rest.map String.toList)

/-! A word by which git takes an option is one in which the shim sees it. -/

theorem map_options (rest : List String) :
    untilTerminator (rest.map String.toList) = (options rest).map String.toList := by
  induction rest with
  | nil => rfl
  | cons word rest ih =>
    have hword : word.toList = terminator ↔ word = "--" := by
      rw [← String.toList_inj]
      exact Iff.rfl
    rw [List.map_cons, untilTerminator, options, List.takeWhile_cons, List.takeWhile_cons]
    by_cases h : word = "--"
    · have htext := hword.mpr h
      rw [if_neg (by simpa using htext), if_neg (by simpa using h)]
      rfl
    · have htext : word.toList ≠ terminator := fun heq => h (hword.mp heq)
      rw [if_pos (by simpa using htext), if_pos (by simpa using h), List.map_cons]
      exact congrArg _ ih

theorem before_eq {arg : String} {text : Text} (h : arg.toList = '-' :: '-' :: text) :
    before '=' arg = "--" ++ String.ofList (nameOf text) := by
  have htake : arg.toList.takeWhile (· ≠ '=') = '-' :: '-' :: nameOf text := by
    rw [h, List.takeWhile_cons_of_pos (by decide), List.takeWhile_cons_of_pos (by decide)]
    rfl
  rw [before, htake, ← String.toList_inj, String.toList_append, @String.toList_ofList (nameOf text),
    String.toList_ofList]
  rfl

theorem utf8ByteSize_pos {text : Text} (h : text ≠ []) : 0 < (String.ofList text).utf8ByteSize := by
  apply Nat.pos_of_ne_zero
  intro hzero
  rw [String.utf8ByteSize_eq_zero_iff, ← String.toList_inj, String.toList_ofList] at hzero
  exact h hzero

/-- The long options of a table that stand for an option, and the letters of it. -/
structure Named (specs : List (Spec GitOption)) (id : GitOption) (name : String) (letters : String) :
    Prop where
  long : ∀ s ∈ specs.flatMap Spec.spellings, s.id = id → s.on = true → s.text = name.toList
  letter : ∀ s ∈ specs, s.id = id → ∀ c ∈ s.letter, c ∈ letters.toList
  force : ¬ "force".toList <+: name.toList ∨
    ∃ s ∈ specs.flatMap Spec.spellings, s.text = "force".toList

theorem Named.of_letters {specs : List (Spec GitOption)} {id : GitOption} {name letters : String}
    (hlong : ∀ s ∈ specs.flatMap Spec.spellings, s.id = id → s.on = true → s.text = name.toList)
    (hletter : ∀ s ∈ specs, s.id = id → s.letter.all (· ∈ letters.toList) = true)
    (hforce : ¬ "force".toList <+: name.toList ∨
      ∃ s ∈ specs.flatMap Spec.spellings, s.text = "force".toList) :
    Named specs id name letters where
  long := hlong
  letter s hs hid c hc :=
    of_decide_eq_true ((Option.all_eq_true _ _).mp (hletter s hs hid) c hc)
  force := hforce

/-- A word that writes out an option matches its name, or one of its letters. -/
theorem matches_of_spells {specs : List (Spec GitOption)} {id : GitOption} {name letters : String}
    (hnamed : Named specs id name letters) {arg : String} {word : Text} (harg : arg.toList = word)
    {on : Bool} (hon : on = true) (h : Spells specs word id on) :
    long arg ("--" ++ name) = true ∨ short arg letters = true := by
  cases h with
  | long h =>
    rename_i text s
    left
    obtain ⟨hs, hname⟩ := resolve_eq_some h
    have htext := hnamed.long s hs rfl hon
    rw [long, before_eq harg]
    rcases hname with hexact | ⟨hne, hprefix, hother⟩
    · rw [hexact, htext, String.ofList_toList]
      simp
    · have hstarts : startsWith ("--" ++ String.ofList (nameOf text)) ("--" ++ name) = true := by
        rw [startsWith, List.isPrefixOf_iff_prefix, String.toList_append, String.toList_append,
          @String.toList_ofList (nameOf text), List.prefix_append_right_inj, ← htext]
        exact hprefix
      have hforce : "--" ++ String.ofList (nameOf text) ≠ "--force" := by
        intro heq
        have hsplit : ("--force" : String) = "--" ++ "force" := rfl
        rw [hsplit, ← String.toList_inj, String.toList_append, String.toList_append,
          @String.toList_ofList (nameOf text)] at heq
        have hforceText := List.append_cancel_left heq
        rcases hnamed.force with hnot | hexists
        · rw [hforceText, htext] at hprefix
          exact hnot hprefix
        · obtain ⟨t, ht, hforce⟩ := hexists
          exact hother t ht (hforce.trans hforceText.symm)
      have hsize : 3 ≤ ("--" ++ String.ofList (nameOf text)).utf8ByteSize := by
        have hpos := utf8ByteSize_pos hne
        have htwo : "--".utf8ByteSize = 2 := rfl
        rw [String.utf8ByteSize_append]
        omega
      rw [hstarts, decide_eq_true hforce, decide_eq_true hsize]
      exact Bool.or_true _
  | short hs hletter hmem hhead =>
    rename_i cluster s c
    right
    have hc := hnamed.letter s hs rfl c hletter
    have hsize : 1 < arg.utf8ByteSize := by
      have hsplit : arg = "-" ++ String.ofList cluster := by
        rw [← String.toList_inj, harg, String.toList_append, @String.toList_ofList cluster]
        rfl
      have hpos := utf8ByteSize_pos (List.ne_nil_of_mem hmem)
      have hone : "-".utf8ByteSize = 1 := rfl
      rw [hsplit, String.utf8ByteSize_append]
      omega
    have hdash : startsWith "-" arg = true := by
      rw [startsWith, harg]
      rfl
    have hshort : startsWith "--" arg = false := by
      rw [startsWith, harg]
      cases cluster with
      | nil => rfl
      | cons d rest =>
        have hd : d ≠ '-' := fun heq => hhead (heq ▸ rfl)
        change ('-' == '-' && ('-' == d && true)) = false
        simp [hd.symm]
    have hany : (arg.toList.drop 1).any (· ∈ letters.toList) = true := by
      rw [harg, List.any_eq_true]
      exact ⟨c, hmem, by simpa using hc⟩
    rw [short, hdash, hshort, hany, decide_eq_true hsize]
    rfl

end Agend.Shim
