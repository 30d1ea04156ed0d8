import Agend.Shim.GitOptions
import Agend.Shim.Routed

/-! Whether a command that can lose work is snapshotted first. -/
namespace Agend.Shim

open Library Library.Options

def resetModes : List GitOption := [.mixed, .soft, .hard, .mergeMode, .keep]

/-- What git does with the work tree by the options in effect. -/
def destroys (sub : String) (given : List (Given GitOption)) : Bool :=
  match sub with
  | "reset" =>
    ((given.filter (·.id ∈ resetModes)).getLast?).any (·.id ∈ [.hard, .mergeMode, .keep])
  | "restore" =>
    lastOn given (· = .worktree) || !given.any fun g => g.id ∈ [.staged, .worktree]
  | "switch" => lastOn given (· = .force) || lastOn given (· = .discardChanges)
  | "rm" | "mv" =>
    lastOn given (· = .force) && !lastOn given (· = .cached) && !lastOn given (· = .dryRun)
  | _ => true

/-- Git takes the words, and overwrites or deletes what is not committed. -/
def gitDestroys (sub : String) (rest : List String) : Bool :=
  (gitReads sub rest).any fun r => destroys sub r.options

/-- Git takes the first two dashes as the value of an option. -/
def gitSwallows (sub : String) (rest : List String) : Bool :=
  (gitReads sub rest).any Reading.swallows

/-- Some word before the two dashes reads like an option that makes the command destroy. -/
def demands (sub : String) (rest : List String) : Bool :=
  let has (l : String) := (options rest).any (long · l)
  let hasShort (c : String) := (options rest).any (short · c)
  match sub with
  | "reset" => has "--hard" || has "--merge" || has "--keep"
  | "switch" => has "--force" || has "--discard-changes" || hasShort "f"
  | "rm" | "mv" => has "--force" || hasShort "f"
  | _ => true

/-- Some word before the two dashes reads like one that spares the work tree. -/
def spares (sub : String) (rest : List String) : Bool :=
  let has (l : String) := (options rest).any (long · l)
  let hasShort (c : String) := (options rest).any (short · c)
  match sub with
  | "restore" => (has "--staged" || hasShort "S") && !(has "--worktree" || hasShort "W")
  | "rm" | "mv" => has "--cached" || has "--dry-run" || (options rest).any (· = "-n")
  | _ => false

def destructives : List String := ["reset", "clean", "checkout", "restore", "switch", "rm", "mv"]

/-- A call of one of these commands that runs, not in a repository of the agent's own. -/
structure LetsWrite (i : Input) (sub : String) (run : Run) : Prop where
  named : i.args.sub = some sub
  mem : sub ∈ destructives
  asked : i.args.infoOnly = false
  inside : i.location ≠ .foreign
  run : classify i = .ok run

theorem destructive_eq {sub : String} (h : sub ∈ destructives) (rest : List String) :
    destructive sub rest = if demands sub rest && !spares sub rest then some sub else none := by
  have hops : sub ∈ snapshotOps := by
    revert h
    revert sub
    decide
  have hyes : ∀ yes : Bool, (if sub ∈ snapshotOps ∧ yes = true then some sub else none) =
      if yes then some sub else none := by
    intro yes
    cases yes <;> simp [hops]
  simp only [destructives, List.mem_cons, List.not_mem_nil, or_false] at h
  rcases h with h | h | h | h | h | h | h <;> subst h <;>
    rw [destructive, hyes] <;> simp [discards, demands, spares, Bool.or_assoc, Bool.and_assoc]

theorem LetsWrite.notRead {i : Input} {sub : String} {run : Run} (h : LetsWrite i sub run) :
    kind sub i.args.rest ≠ some .read := by
  have hmem := h.mem
  simp only [destructives, List.mem_cons, List.not_mem_nil, or_false] at hmem
  rcases hmem with heq | heq | heq | heq | heq | heq | heq <;> subst heq <;> (intro hread; cases hread)

theorem snapshot_of_letsWrite {i : Input} {sub : String} {run : Run} (h : LetsWrite i sub run) :
    run.snapshot = destructive sub i.args.rest := by
  have hread := h.notRead
  by_cases hnested : i.location = .nested
  · have hforeign : foreign i sub i.args.rest = .ok run := by
      have hrun := h.run
      unfold classify at hrun
      rw [h.named] at hrun
      simp only [h.asked, Bool.false_eq_true, if_false] at hrun
      rwa [if_pos (.inr hnested)] at hrun
    rw [foreign, if_neg hread] at hforeign
    simp only at hforeign
    rw [require_bind_eq_ok] at hforeign
    have hlast := hforeign.2
    split at hlast
    · cases hlast
    · have heq := Except.ok.inj hlast
      rw [← heq]
      exact if_pos hnested
  · obtain ⟨_, _, _, hwrite⟩ := classify_eq_ok h.named h.asked h.inside hnested hread h.run
    obtain ⟨s, b, hpassed⟩ := write_eq_ok hwrite
    exact congrArg Run.snapshot hpassed.run

theorem named_hard : Named resetOptions .hard "hard" "" :=
  .of_letters (by decide) (by decide) (.inl (by decide))

theorem named_mergeMode : Named resetOptions .mergeMode "merge" "" :=
  .of_letters (by decide) (by decide) (.inl (by decide))

theorem named_keep : Named resetOptions .keep "keep" "" :=
  .of_letters (by decide) (by decide) (.inl (by decide))

theorem named_force {specs : List (Spec GitOption)}
    (h : specs ∈ [switchOptions, rmOptions, mvOptions]) : Named specs .force "force" "f" := by
  simp only [List.mem_cons, List.not_mem_nil, or_false] at h
  rcases h with h | h | h <;> subst h <;>
    exact .of_letters (by decide) (by decide) (.inr (by decide))

theorem named_discardChanges : Named switchOptions .discardChanges "discard-changes" "" :=
  .of_letters (by decide) (by decide) (.inl (by decide))

/-- What git takes an option from is what the shim finds it in. -/
theorem exists_match {sub : String} {specs : List (Spec GitOption)} {rest : List String}
    {r : Reading GitOption} (hspecs : gitOptions sub = some specs)
    (hread : gitReads sub rest = some r) (hswallows : r.swallows = false)
    {id : GitOption} {name letters : String} (hnamed : Named specs id name letters)
    {g : Given GitOption} (hg : g ∈ r.options) (hid : g.id = id) (hon : g.on = true) :
    (options rest).any (long · ("--" ++ name)) = true ∨
      (options rest).any (short · letters) = true := by
  have hof : r.Of specs (rest.map String.toList) := by
    rw [gitReads, hspecs] at hread
    exact of_read hread
  obtain ⟨word, hword, hspells⟩ := hof.spelled hswallows hg
  rw [map_options] at hword
  obtain ⟨arg, harg, htext⟩ := List.mem_map.mp hword
  rw [hid] at hspells
  rcases matches_of_spells hnamed htext hon hspells with hlong | hshort
  · exact .inl (List.any_eq_true.mpr ⟨arg, harg, hlong⟩)
  · exact .inr (List.any_eq_true.mpr ⟨arg, harg, hshort⟩)

theorem short_nil (arg : String) : short arg "" = false := by
  have hnone : ((arg.toList.drop 1).any (· ∈ "".toList)) = false := by simp
  rw [short, hnone, Bool.and_false]

/-- The same for an option without letters. -/
theorem exists_long {sub : String} {specs : List (Spec GitOption)} {rest : List String}
    {r : Reading GitOption} (hspecs : gitOptions sub = some specs)
    (hread : gitReads sub rest = some r) (hswallows : r.swallows = false)
    {id : GitOption} {name : String} (hnamed : Named specs id name "")
    {g : Given GitOption} (hg : g ∈ r.options) (hid : g.id = id) (hon : g.on = true) :
    (options rest).any (long · ("--" ++ name)) = true := by
  rcases exists_match hspecs hread hswallows hnamed hg hid hon with hlong | hshort
  · exact hlong
  · obtain ⟨arg, _, harg⟩ := List.any_eq_true.mp hshort
    rw [short_nil] at harg
    cases harg

theorem force_found {sub : String} {specs : List (Spec GitOption)} {rest : List String}
    {r : Reading GitOption} (hspecs : gitOptions sub = some specs)
    (hmem : specs ∈ [switchOptions, rmOptions, mvOptions])
    (hread : gitReads sub rest = some r) (hswallows : r.swallows = false)
    (h : lastOn r.options (· = .force) = true) :
    (options rest).any (long · "--force") = true ∨ (options rest).any (short · "f") = true := by
  obtain ⟨g, hg, hid, hon⟩ := exists_of_lastOn h
  exact exists_match hspecs hread hswallows (named_force hmem) hg (of_decide_eq_true hid) hon

/-- None of the modes of reset has a negation. -/
theorem on_of_resetMode {word : Text} {id : GitOption} {on : Bool} (hid : id ∈ resetModes)
    (h : Spells resetOptions word id on) : on = true := by
  cases h with
  | long h =>
    have hall : ∀ s ∈ resetOptions.flatMap Spec.spellings, s.id ∈ resetModes → s.on = true := by
      decide
    exact hall _ (resolve_eq_some h).1 hid
  | short hs hletter hmem hhead => rfl

/-- Where git takes no two dashes for a value, the shim finds what makes the command destroy. -/
theorem demands_of_destroys {sub : String} {rest : List String} {r : Reading GitOption}
    (hread : gitReads sub rest = some r) (hswallows : r.swallows = false)
    (hmem : sub ∈ destructives) (h : destroys sub r.options = true) : demands sub rest = true := by
  simp only [destructives, List.mem_cons, List.not_mem_nil, or_false] at hmem
  rcases hmem with heq | heq | heq | heq | heq | heq | heq <;> subst heq
  · have hof : r.Of resetOptions (rest.map String.toList) := of_read hread
    simp only [destroys, Option.any_eq_true] at h
    obtain ⟨g, hlast, hid⟩ := h
    have hg := List.mem_of_getLast? hlast
    rw [List.mem_filter, decide_eq_true_eq] at hg
    obtain ⟨word, _, hspells⟩ := hof.spelled hswallows hg.1
    have hon := on_of_resetMode hg.2 hspells
    simp only [List.mem_cons, List.not_mem_nil, or_false, decide_eq_true_eq] at hid
    unfold demands
    rcases hid with hid | hid | hid
    · have hfound := exists_long rfl hread hswallows named_hard hg.1 hid hon
      exact Bool.or_eq_true_iff.mpr (.inl (Bool.or_eq_true_iff.mpr (.inl hfound)))
    · have hfound := exists_long rfl hread hswallows named_mergeMode hg.1 hid hon
      exact Bool.or_eq_true_iff.mpr (.inl (Bool.or_eq_true_iff.mpr (.inr hfound)))
    · have hfound := exists_long rfl hread hswallows named_keep hg.1 hid hon
      exact Bool.or_eq_true_iff.mpr (.inr hfound)
  · rfl
  · rfl
  · rfl
  · rcases Bool.or_eq_true_iff.mp h with hforce | hdiscard
    · have hfound := force_found rfl (by simp) hread hswallows hforce
      simp only [demands, Bool.or_eq_true]
      exact hfound.imp .inl id
    · obtain ⟨g, hg, hid, hon⟩ := exists_of_lastOn hdiscard
      have hfound := exists_long rfl hread hswallows named_discardChanges hg
        (of_decide_eq_true hid) hon
      simp only [demands, Bool.or_eq_true]
      exact .inl (.inr hfound)
  · simp only [destroys, Bool.and_eq_true] at h
    exact Bool.or_eq_true_iff.mpr (force_found rfl (by simp) hread hswallows h.1.1)
  · simp only [destroys, Bool.and_eq_true] at h
    exact Bool.or_eq_true_iff.mpr (force_found rfl (by simp) hread hswallows h.1.1)

/-- Git reads the words, and one of its two dashes is no terminator. -/
theorem gitSwallows_eq {sub : String} {rest : List String} {r : Reading GitOption}
    (hread : gitReads sub rest = some r) : gitSwallows sub rest = r.swallows := by
  rw [gitSwallows, hread]
  rfl

/-- What destroys is snapshotted, unless a word reads like an option that spares the work tree, or
the two dashes are the value of an option and what destroys stands only behind them. -/
theorem snapshot_exact (i : Input) (sub : String) (run : Run) (h : LetsWrite i sub run) :
    (gitDestroys sub i.args.rest = true → run.snapshot = some sub) ↔
      (gitDestroys sub i.args.rest = true → spares sub i.args.rest = false ∧
        ¬(gitSwallows sub i.args.rest = true ∧ demands sub i.args.rest = false)) := by
  apply forall_congr'
  intro hdestroys
  rw [snapshot_of_letsWrite h, destructive_eq h.mem]
  rw [gitDestroys, Option.any_eq_true] at hdestroys
  obtain ⟨r, hread, hdestroys⟩ := hdestroys
  rw [gitSwallows_eq hread]
  cases hdemands : demands sub i.args.rest with
  | true => cases spares sub i.args.rest <;> simp
  | false =>
    have hswallows : r.swallows = true := by
      by_contra hno
      have hfound := demands_of_destroys hread (Bool.eq_false_iff.mpr hno) h.mem hdestroys
      rw [hdemands] at hfound
      cases hfound
    simp [hswallows]

/-- A call in the top of a bound worktree. -/
def inWorktree (words : List String) : Input where
  args := parse words
  snapshot := .ok ⟨"a", some "/repo", [], some (.work "t" "agend/t/x" "/wt/a")⟩
  location := .worktree
  resolved := some ⟨"/repo/.git/worktrees/a", "/repo/.git", some "/wt/a", ""⟩
  env := ⟨false, none, []⟩
  dir := "/wt/a"
  probe := ⟨false, fun _ => false, fun _ => none, true⟩
  files := ⟨fun _ => true, fun _ => true, fun _ => false, some⟩

theorem snapshot_exact_hard :
    gitDestroys "reset" ["--ha", "HEAD~1"] = true ∧
      (Run.mk none (some "reset") none).snapshot = some "reset" :=
  ⟨by decide, (snapshot_exact (inWorktree ["reset", "--ha", "HEAD~1"]) "reset"
    ⟨none, some "reset", none⟩ ⟨by decide, by decide, by decide, by decide, by decide⟩).mpr
    (by decide) (by decide)⟩

/-- The name of the source begins with the letter that would spare the work tree. -/
theorem restore_unsnapshotted :
    LetsWrite (inWorktree ["restore", "-sStable", "f"]) "restore" ⟨none, none, none⟩ ∧
      gitDestroys "restore" (inWorktree ["restore", "-sStable", "f"]).args.rest = true :=
  ⟨⟨by decide, by decide, by decide, by decide, by decide⟩,
    by decide⟩

end Agend.Shim
