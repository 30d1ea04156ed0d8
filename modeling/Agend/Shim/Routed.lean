import Agend.Shim.Plan

/-! A git write that runs acts in the bound worktree. -/
namespace Agend.Shim

open Library Library.Path

/-- The words of a call without those that retarget git. -/
def withoutRetargets : List String → List String
  | [] => []
  | a :: l =>
    match word a, l with
    | .chdir, _ :: l | .gitDir, _ :: l | .workTree, _ :: l => withoutRetargets l
    | .gitDirIs _, l | .workTreeIs _, l | .bare, l => withoutRetargets l
    | .config, v :: l | .value, v :: l => a :: v :: withoutRetargets l
    | .info, l | .flag, l | .valueIs, l | .configIs _, l => a :: withoutRetargets l
    | .chdir, [] | .gitDir, [] | .workTree, [] | .config, [] | .value, [] => [a]
    | .stop, l => a :: l

/-- The words whose index is not dropped. -/
def kept (drop : List Nat) (i : Nat) (l : List String) : List String :=
  ((l.zipIdx i).filter fun (_, j) => j ∉ drop).map Prod.fst

variable {l : List String} {a v : String} {i : Nat} {drop : List Nat} {g : GitArgs}

theorem kept_cons : kept drop i (a :: l) =
    if i ∈ drop then kept drop (i + 1) l else a :: kept drop (i + 1) l := by
  by_cases h : i ∈ drop <;> simp [kept, List.zipIdx_cons, h]

theorem kept_nil : kept [] i l = l := by
  induction l generalizing i with
  | nil => rfl
  | cons a l ih => rw [kept_cons, if_neg List.not_mem_nil, ih]

/-- An index that is passed drops nothing. -/
theorem kept_append {old new : List Nat} (h : ∀ k ∈ old, k < i) :
    kept (old ++ new) i l = kept new i l := by
  induction l generalizing i with
  | nil => rfl
  | cons a l ih =>
    have hmem : i ∈ old ++ new ↔ i ∈ new := by
      rw [List.mem_append, or_iff_right fun hi => Nat.lt_irrefl _ (h i hi)]
    rw [kept_cons, kept_cons, ih fun k hk => Nat.lt_succ_of_lt (h k hk)]
    exact if_congr hmem rfl rfl

/-- Of the words from index `i` on, the new indexes drop all but `words`. -/
def Drops (old out : List Nat) (i : Nat) (l words : List String) : Prop :=
  ∃ new, out = old ++ new ∧ (∀ k ∈ new, i ≤ k) ∧ kept new i l = words

section

variable {old out : List Nat} {words : List String}

theorem Drops.stop : Drops old old i l l :=
  ⟨[], (List.append_nil _).symm, fun _ hk => absurd hk List.not_mem_nil, kept_nil⟩

theorem Drops.keep (h : Drops old out (i + 1) l words) : Drops old out i (a :: l) (a :: words) := by
  obtain ⟨new, hout, hle, hk⟩ := h
  refine ⟨new, hout, fun k hk => Nat.le_of_succ_le (hle k hk), ?_⟩
  rw [kept_cons, if_neg fun hi => Nat.lt_irrefl _ (hle i hi), hk]

theorem Drops.skip (h : Drops (old ++ [i]) out (i + 1) l words) : Drops old out i (a :: l) words := by
  obtain ⟨new, hout, hle, hk⟩ := h
  refine ⟨i :: new, ?_, fun k hk => ?_, ?_⟩
  · rw [hout, List.append_assoc, List.singleton_append]
  · rcases List.mem_cons.mp hk with rfl | hk
    · exact Nat.le_refl _
    · exact Nat.le_of_succ_le (hle k hk)
  · rw [kept_cons, if_pos List.mem_cons_self, ← hk]
    refine kept_append fun k (hk : k ∈ [i]) => ?_
    exact List.mem_singleton.mp hk ▸ Nat.lt_succ_self _

theorem Drops.skipPair (h : Drops (old ++ [i, i + 1]) out (i + 2) l words) :
    Drops old out i (a :: v :: l) words := by
  refine .skip (.skip ?_)
  rwa [List.append_assoc, List.singleton_append]

end

/-- The loop drops exactly the words that retarget git. -/
theorem drops_parseFrom : Drops g.retargetIndexes (parseFrom g i l).retargetIndexes i l
    (withoutRetargets l) := by
  fun_induction parseFrom g i l with
  | case1 => exact .stop
  | case2 | case3 | case4 | case12 =>
    rename_i h ih
    unfold withoutRetargets
    simp only [h]
    exact ih.keep
  | case5 | case6 | case7 =>
    rename_i h ih
    unfold withoutRetargets
    simp only [h]
    exact ih.skipPair
  | case8 | case9 | case10 =>
    rename_i h ih
    unfold withoutRetargets
    simp only [h]
    exact ih.skip
  | case11 | case13 =>
    rename_i h ih
    unfold withoutRetargets
    simp only [h]
    exact ih.keep.keep
  | _ =>
    rename_i h
    unfold withoutRetargets
    simp only [h]
    exact .stop

theorem routedArgs_eq {args : List String} {d : String} :
    routedArgs args d (parse args).retargetIndexes = "-C" :: d :: withoutRetargets args := by
  obtain ⟨new, hout, -, hk⟩ := drops_parseFrom (g := ⟨0, none, [], [], none, none, [], false, []⟩)
    (i := 0) (l := args)
  rw [← hk, routedArgs, parse, hout]
  rfl

section

variable {w : World} {ctx : Ctx} {args final messages rest : List String} {cwd real sub : String}
  {run : Run} {inp : Input} {b : Binding} {s : Snapshot} {r : Resolved} {wt : String}

/-- A call that changes a repository, in none that git calls foreign. -/
structure Writes (w : World) (ctx : Ctx) (args : List String) (cwd sub : String) : Prop where
  subcommand : (parse args).sub = some sub
  kind : kind sub (parse args).rest ≠ some .read
  infoOnly : (parse args).infoOnly = false
  foreign : w.location ctx args cwd ≠ .foreign
  nested : w.location ctx args cwd ≠ .nested

/-- The git dir of the bound worktree, as git answers there. -/
def World.boundGitDir (w : World) (ctx : Ctx) : Option String :=
  (w.anchors ctx).worktreeDirs.map Prod.fst

/-- The call runs as it was typed, and git uses the git dir, the work tree and an index file of the
bound worktree. -/
structure AsTyped (w : World) (ctx : Ctx) (args : List String) (cwd : String) (b : Binding)
    (final : List String) : Prop where
  words : final = args
  resolved : ∃ r, w.resolved ctx args cwd = some r ∧ w.boundGitDir ctx = some r.gitDir ∧
    r.workTree.isSome = true ∧ r.workTree = w.files.canonicalize b.worktree ∧
    ∀ f, ctx.gitIndexFile = some f → ∃ d,
      (parent (join (World.dir args cwd) f)).bind w.files.canonicalize = some d ∧
        isUnder d r.gitDir = true

/-- The call runs in a directory of the bound worktree: that of the caller, in no repository of its
own, and nothing in the environment points git elsewhere. -/
structure Routed (w : World) (ctx : Ctx) (args : List String) (cwd : String) (b : Binding)
    (final : List String) : Prop where
  named : (parse args).gitDir = none ∧ (parse args).workTree = none
  env : ctx.gitEnvRetargets = false
  words : ∃ d, final = "-C" :: d :: withoutRetargets args ∧
    d = target (w.input ctx args cwd) b.worktree ∧ w.files.isDir d = true ∧
    (∀ a ∈ (ancestors d).takeWhile (!samePath · b.worktree), w.files.present (join a ".git") = false) ∧
    ∃ t c, w.files.canonicalize d = some t ∧ w.files.canonicalize b.worktree = some c ∧
      isUnder t c = true

/-- Every write that runs acts in the bound worktree, under its hooks. -/
def World.Confined (w : World) (ctx : Ctx) (args : List String) : Prop :=
  ∀ cwd real final messages sub, World.workingDir ctx args = some cwd → Writes w ctx args cwd sub →
    w.plan ctx args = ⟨messages, .exec real final⟩ →
    ∃ s b, w.snapshot = .ok s ∧ s.binding = some b ∧
      (∃ g, w.boundGitDir ctx = some g ∧ w.files.isFile (World.marker g) = true) ∧
      (∀ v ∈ (parse args).config ++ ctx.configEnv,
        contains (toAsciiLowercase v) "core.hookspath" = false) ∧
      (w.location ctx args cwd = .worktree ∧ AsTyped w ctx args cwd b final ∨
        w.location ctx args cwd ≠ .worktree ∧ Routed w ctx args cwd b final)

theorem exec_cases (hb : ctx.bypass = false)
    (h : w.plan ctx args = ⟨messages, .exec real final⟩) : ∃ cwd run report,
      World.workingDir ctx args = some cwd ∧ classify (w.input ctx args cwd) = .ok run ∧
        final = World.finalArgs args run ∧ w.findReal.isSome = true ∧ ctx.depth < maxDepth ∧
        w.takeSnapshot ctx args cwd run = .ok report := by
  unfold World.plan at h
  split at h
  · cases h
  · rename_i program hprogram
    rw [if_neg (Bool.eq_false_iff.mp hb)] at h
    split_ifs at h with hdepth
    · cases h
    · split at h
      · cases h
      · rename_i cwd hcwd
        split at h
        · cases h
        · rename_i run hrun
          split at h
          · cases h
          · rename_i report hreport
            obtain ⟨-, hexec⟩ := Outcome.mk.inj h
            obtain ⟨-, hfinal⟩ := Action.exec.inj hexec
            exact ⟨cwd, run, report, hcwd, hrun, hfinal.symm, by rw [hprogram]; rfl,
              Nat.not_le.mp hdepth, hreport⟩

theorem classify_eq_ok (hsub : inp.args.sub = some sub) (hinfo : inp.args.infoOnly = false)
    (hforeign : inp.location ≠ .foreign) (hnested : inp.location ≠ .nested)
    (hkind : kind sub inp.args.rest ≠ some .read) (h : classify inp = .ok run) :
    checkHooksKept sub inp.args.rest inp = .ok () ∧ kind sub inp.args.rest = some .write ∧
      ¬ (sub = "worktree" ∧ firstPositional inp.args.rest ≠ some "list") ∧
      write inp sub inp.args.rest = .ok run := by
  unfold classify at h
  rw [hsub] at h
  simp only [hinfo, Bool.false_eq_true, if_false] at h
  rw [if_neg fun hor => hor.elim hforeign hnested, bind_eq_ok] at h
  obtain ⟨_, hhooks, h⟩ := h
  rw [require_bind_eq_ok] at h
  obtain ⟨hmanaged, h⟩ := h
  split at h
  · cases h
  · exact absurd ‹_› hkind
  · exact ⟨hhooks, ‹_›, hmanaged, h⟩

/-- What a write passed. -/
structure Passed (inp : Input) (sub : String) (rest : List String) (s : Snapshot) (b : Binding)
    (run : Run) : Prop where
  snapshot : inp.snapshot = .ok s
  binding : s.binding = some b
  present : inp.files.isDir b.worktree = true
  route : routeWrite sub inp b = .ok run.route
  workTree : checkWorkTree sub inp b = .ok ()
  hooks : inp.probe.hooksInstalled = true
  call : checkCall sub rest inp b s.protectedRefs = .ok ()
  run : run = ⟨run.route, destructive sub rest, run.route.map (routedNote · inp.dir)⟩

theorem write_eq_ok (h : write inp sub rest = .ok run) : ∃ s b, Passed inp sub rest s b run := by
  unfold write at h
  rw [bind_eq_ok] at h
  obtain ⟨s, hs, h⟩ := h
  rw [bind_eq_ok] at h
  obtain ⟨b, hb, h⟩ := h
  simp only at h
  rw [require_bind_eq_ok] at h
  obtain ⟨hdir, h⟩ := h
  rw [bind_eq_ok] at h
  obtain ⟨route, hroute, h⟩ := h
  rw [bind_eq_ok] at h
  obtain ⟨_, htree, h⟩ := h
  rw [require_bind_eq_ok] at h
  obtain ⟨hhooks, h⟩ := h
  rw [bind_eq_ok] at h
  obtain ⟨_, hcall, h⟩ := h
  obtain rfl := Except.ok.inj h
  exact ⟨s, b, mapError_eq_ok.mp hs, okOr_eq_ok.mp hb, hdir, hroute, htree, hhooks, hcall, rfl⟩

theorem routeWrite_eq_ok {route : Option String} (h : routeWrite sub inp b = .ok route) :
    inp.location = .worktree ∧ route = none ∨ inp.location ≠ .worktree ∧ ∃ d, route = some d ∧
      routeDir sub inp b = .ok d ∧ inp.env.retargets = false := by
  unfold routeWrite at h
  simp only at h
  rw [require_bind_eq_ok] at h
  obtain ⟨-, h⟩ := h
  rw [require_bind_eq_ok] at h
  obtain ⟨-, h⟩ := h
  split_ifs at h with hloc
  · rw [bind_eq_ok] at h
    obtain ⟨_, hnone, h⟩ := h
    rw [require_bind_eq_ok] at h
    obtain rfl := Except.ok.inj hnone
    exact Or.inl ⟨hloc, (Except.ok.inj h.2).symm⟩
  · rw [bind_eq_ok] at h
    obtain ⟨_, hroute, h⟩ := h
    rw [require_bind_eq_ok] at h
    obtain ⟨hno, h⟩ := h
    obtain rfl := Except.ok.inj h
    obtain ⟨d, hd, rfl⟩ := map_eq_ok.mp hroute
    exact Or.inr ⟨hloc, d, rfl, hd, Bool.eq_false_iff.mpr fun he => hno ⟨rfl, he⟩⟩

theorem routeDir_eq_ok {d : String} (h : routeDir sub inp b = .ok d) :
    targetOk inp b.worktree = true ∧ d = target inp b.worktree := by
  unfold routeDir at h
  simp only at h
  split_ifs at h with _ hok
  exact ⟨hok, (Except.ok.inj h).symm⟩

/-- In the bound worktree: the work tree that git uses is the bound one, and the index file is in
the git dir that it uses. -/
theorem checkWorkTree_eq_ok (hloc : inp.location = .worktree)
    (h : checkWorkTree sub inp b = .ok ()) : ∃ r p, inp.resolved = some r ∧ r.workTree = some p ∧
      inp.files.canonicalize b.worktree = some p ∧ ∀ f, inp.env.indexFile = some f →
        ((parent f).bind inp.files.canonicalize).any (isUnder · r.gitDir) = true := by
  unfold checkWorkTree at h
  simp only [hloc, ne_eq, not_true_eq_false, if_false] at h
  split at h
  · cases h
  · rename_i r hr
    split at h
    · cases h
    · rename_i p hp
      rw [require_bind_eq_ok] at h
      obtain ⟨hcanon, h⟩ := h
      refine ⟨r, p, hr, hp, hcanon, fun f hf => ?_⟩
      rw [hf] at h
      exact require_eq_ok.mp h

theorem named_of_checkWorkTree (hloc : inp.location ≠ .worktree)
    (h : checkWorkTree sub inp b = .ok ()) : inp.named = false := by
  unfold checkWorkTree at h
  simp only [if_pos hloc] at h
  split at h
  · assumption
  · cases h
  · cases h

theorem hooksPath_of_kept (h : checkHooksKept sub rest inp = .ok ()) :
    ∀ v ∈ inp.args.config ++ inp.env.config,
      contains (toAsciiLowercase v) "core.hookspath" = false := by
  unfold checkHooksKept at h
  rw [require_bind_eq_ok] at h
  intro v hv
  exact Bool.eq_false_iff.mpr fun hc => h.1 (List.any_eq_true.mpr ⟨v, hv, hc⟩)

theorem routed_of_targetOk {d : String} (h : targetOk inp wt = true) (hd : d = target inp wt) :
    inp.files.isDir d = true ∧
    (∀ a ∈ (ancestors d).takeWhile (!samePath · wt), inp.files.present (join a ".git") = false) ∧
    ∃ t c, inp.files.canonicalize d = some t ∧ inp.files.canonicalize wt = some c ∧
      isUnder t c = true := by
  subst hd
  unfold targetOk at h
  simp only [Bool.and_eq_true, Bool.not_eq_true'] at h
  obtain ⟨⟨⟨-, hdir⟩, hgit⟩, hcanon⟩ := h
  refine ⟨hdir, fun a ha => ?_, ?_⟩
  · exact Bool.eq_false_iff.mpr fun hp =>
      Bool.eq_false_iff.mp hgit (List.any_eq_true.mpr ⟨a, ha, hp⟩)
  · split at hcanon
    · exact ⟨_, _, ‹_›, ‹_›, hcanon⟩
    · cases hcanon

theorem locate_eq_worktree {explicit : Bool} {a : Anchors} :
    locate r explicit a = .worktree ↔ a.own r explicit = true := by
  unfold locate
  split_ifs with h
  all_goals simp [h]

theorem location_of_resolved (hneeds : needsLocation (parse args) = true)
    (hr : w.resolved ctx args cwd = some r) (hs : w.snapshot = .ok s) :
    w.location ctx args cwd = locate r (World.explicit ctx args) (w.anchors ctx) := by
  unfold World.location
  simp only [hneeds, hr, hs, Bool.true_eq_false, if_false]

/-- A call in the bound worktree has an answer of git there. -/
theorem location_eq_worktree (h : w.location ctx args cwd = .worktree) : ∃ r,
    w.resolved ctx args cwd = some r ∧ (w.anchors ctx).own r (World.explicit ctx args) = true := by
  unfold World.location at h
  cases hr : w.resolved ctx args cwd with
  | none =>
    simp only [hr] at h
    split_ifs at h
  | some r =>
    simp only [hr] at h
    split_ifs at h
    split at h
    · cases h
    · exact ⟨r, rfl, locate_eq_worktree.mp h⟩

theorem kind_of_mem (h : sub ∈ readCommands) : kind sub rest = some .read := by
  unfold kind
  simp only [if_pos h]

/-- A call that names no repository, for which git answers the bound worktree as work tree and
another git dir, one with the marker of the hooks; no check of the call itself refuses it. -/
structure Misplaced (w : World) (ctx : Ctx) (args : List String) (cwd sub : String) (r : Resolved)
    (s : Snapshot) (b : Binding) : Prop where
  real : w.findReal.isSome = true
  depth : ctx.depth < maxDepth
  workingDir : World.workingDir ctx args = some cwd
  subcommand : (parse args).sub = some sub
  kind : kind sub (parse args).rest = some .write
  infoOnly : (parse args).infoOnly = false
  unmanaged : ¬ (sub = "worktree" ∧ firstPositional (parse args).rest ≠ some "list")
  snapshot : w.snapshot = .ok s
  binding : s.binding = some b
  present : w.files.isDir b.worktree = true
  implicit : World.explicit ctx args = false
  resolved : w.resolved ctx args cwd = some r
  found : r.workTree.isSome = true
  workTree : r.workTree = w.files.canonicalize b.worktree
  other : w.boundGitDir ctx ≠ some r.gitDir
  index : ∀ f, (w.input ctx args cwd).env.indexFile = some f →
    ((parent f).bind w.files.canonicalize).any (isUnder · r.gitDir) = true
  marked : w.files.isFile (World.marker r.gitDir) = true
  hooksKept : checkHooksKept sub (parse args).rest (w.input ctx args cwd) = .ok ()
  call : checkCall sub (parse args).rest (w.input ctx args cwd) b s.protectedRefs = .ok ()
  saved : ∃ report, w.takeSnapshot ctx args cwd
    ⟨none, destructive sub (parse args).rest, none⟩ = .ok report

theorem binding_eq (hs : w.snapshot = .ok s) (hb : s.binding = some b) : w.binding = some b := by
  rw [World.binding, hs]
  exact hb

theorem anchors_worktree (hs : w.snapshot = .ok s) (hb : s.binding = some b) :
    (w.anchors ctx).worktree = w.files.canonicalize b.worktree := by
  simp only [World.anchors, binding_eq hs hb, Option.bind_some]

theorem Misplaced.location (h : Misplaced w ctx args cwd sub r s b) :
    w.location ctx args cwd = .worktree := by
  have hread : ∀ name ∈ readCommands, sub ≠ name := by
    rintro name hname rfl
    cases (kind_of_mem hname).symm.trans h.kind
  have hneeds : needsLocation (parse args) = true := by
    rw [needsLocation, h.infoOnly, h.subcommand]
    simp [hread "init" (by decide), hread "clone" (by decide)]
  obtain ⟨wt, hwt⟩ := Option.isSome_iff_exists.mp h.found
  rw [location_of_resolved hneeds h.resolved h.snapshot, locate_eq_worktree, Anchors.own,
    anchors_worktree h.snapshot h.binding, ← h.workTree, hwt, h.implicit]
  exact decide_eq_true rfl

theorem routeWrite_worktree (h : inp.location = .worktree) : routeWrite sub inp b = .ok none := by
  unfold routeWrite
  simp only [h]
  rw [require_bind_eq_ok]
  refine ⟨nofun, ?_⟩
  rw [require_bind_eq_ok]
  refine ⟨fun hno => hno.1 rfl, ?_⟩
  rw [if_pos trivial, bind_eq_ok]
  refine ⟨none, rfl, ?_⟩
  rw [require_bind_eq_ok]
  exact ⟨fun hno => (by cases hno.1), rfl⟩

theorem checkWorkTree_worktree (hloc : inp.location = .worktree) (hr : inp.resolved = some r)
    (hwt : r.workTree = some wt) (hcanon : inp.files.canonicalize b.worktree = some wt)
    (hindex : ∀ f, inp.env.indexFile = some f →
      ((parent f).bind inp.files.canonicalize).any (isUnder · r.gitDir) = true) :
    checkWorkTree sub inp b = .ok () := by
  unfold checkWorkTree
  simp only [hloc, hr, hwt, ne_eq, not_true_eq_false, if_false]
  rw [require_bind_eq_ok]
  refine ⟨hcanon, ?_⟩
  cases hf : inp.env.indexFile with
  | none => rfl
  | some f => exact require_eq_ok.mpr (hindex f hf)

theorem write_of_misplaced (h : Misplaced w ctx args cwd sub r s b) :
    write (w.input ctx args cwd) sub (parse args).rest =
      .ok ⟨none, destructive sub (parse args).rest, none⟩ := by
  have hloc : (w.input ctx args cwd).location = .worktree := h.location
  obtain ⟨wt, hwt⟩ := Option.isSome_iff_exists.mp h.found
  have hhooks : (w.input ctx args cwd).probe.hooksInstalled = true := by
    simp only [World.input, World.hooksInstalled, h.resolved, h.location]
    exact h.marked
  unfold write
  rw [bind_eq_ok]
  refine ⟨s, mapError_eq_ok.mpr h.snapshot, ?_⟩
  rw [bind_eq_ok]
  refine ⟨b, okOr_eq_ok.mpr h.binding, ?_⟩
  simp only
  rw [require_bind_eq_ok]
  refine ⟨h.present, ?_⟩
  rw [bind_eq_ok]
  refine ⟨none, routeWrite_worktree hloc, ?_⟩
  rw [bind_eq_ok]
  refine ⟨(), checkWorkTree_worktree hloc h.resolved hwt (h.workTree.symm.trans hwt) h.index, ?_⟩
  rw [require_bind_eq_ok]
  refine ⟨hhooks, ?_⟩
  rw [bind_eq_ok]
  exact ⟨(), h.call, rfl⟩

/-- A misplaced call runs as typed. -/
theorem plan_of_misplaced (hb : ctx.bypass = false) (h : Misplaced w ctx args cwd sub r s b) :
    ∃ messages real, w.plan ctx args = ⟨messages, .exec real args⟩ := by
  have hclassify : classify (w.input ctx args cwd) =
      .ok ⟨none, destructive sub (parse args).rest, none⟩ := by
    have hsub : (w.input ctx args cwd).args.sub = some sub := h.subcommand
    have hinfo : (w.input ctx args cwd).args.infoOnly = false := h.infoOnly
    have hloc : (w.input ctx args cwd).location = .worktree := h.location
    have hkind : kind sub (w.input ctx args cwd).args.rest = some .write := h.kind
    unfold classify
    simp only [hsub, hinfo, hloc, reduceCtorEq, Bool.false_eq_true, or_self, if_false]
    rw [bind_eq_ok]
    refine ⟨(), h.hooksKept, ?_⟩
    rw [require_bind_eq_ok]
    refine ⟨h.unmanaged, ?_⟩
    rw [hkind]
    exact write_of_misplaced h
  obtain ⟨report, hreport⟩ := h.saved
  obtain ⟨real, hreal⟩ := Option.isSome_iff_exists.mp h.real
  refine ⟨report, real, ?_⟩
  unfold World.plan
  simp only [hreal, hb, Bool.false_eq_true, if_false, if_neg (Nat.not_le.mpr h.depth),
    h.workingDir, hclassify, hreport]
  rfl

/-- In the bound worktree git uses the bound git dir, unless the call is misplaced. -/
theorem boundGitDir_eq (hcwd : World.workingDir ctx args = some cwd) (hw : Writes w ctx args cwd sub)
    (hloc : w.location ctx args cwd = .worktree) {report : List String}
    (hreal : w.findReal.isSome = true) (hdepth : ctx.depth < maxDepth)
    (hkept : checkHooksKept sub (parse args).rest (w.input ctx args cwd) = .ok ())
    (hkind : kind sub (parse args).rest = some .write)
    (hmanaged : ¬ (sub = "worktree" ∧ firstPositional (parse args).rest ≠ some "list"))
    (hp : Passed (w.input ctx args cwd) sub (parse args).rest s b run)
    (htake : w.takeSnapshot ctx args cwd run = .ok report)
    (h : ∀ cwd sub r s b, ¬ Misplaced w ctx args cwd sub r s b) : ∃ r,
      w.resolved ctx args cwd = some r ∧ w.boundGitDir ctx = some r.gitDir ∧
        r.workTree.isSome = true ∧ r.workTree = w.files.canonicalize b.worktree ∧
        ∀ f, (w.input ctx args cwd).env.indexFile = some f →
          ((parent f).bind w.files.canonicalize).any (isUnder · r.gitDir) = true := by
  obtain ⟨r, hr, hown⟩ := location_eq_worktree hloc
  obtain ⟨r', p, hr', htree, hcanon, hindex⟩ := checkWorkTree_eq_ok hloc hp.workTree
  obtain rfl := Option.some.inj (hr.symm.trans hr')
  have hroute : run.route = none := by
    rcases routeWrite_eq_ok hp.route with ⟨-, hnone⟩ | ⟨hno, -⟩
    · exact hnone
    · exact absurd hloc hno
  have hworkTree : r.workTree = w.files.canonicalize b.worktree := htree.trans hcanon.symm
  have hfound : r.workTree.isSome = true := by
    rw [htree]
    rfl
  refine ⟨r, hr, ?_, hfound, hworkTree, hindex⟩
  cases hexplicit : World.explicit ctx args with
  | true =>
    rw [Anchors.own, anchors_worktree hp.snapshot hp.binding, ← hworkTree, htree, hexplicit] at hown
    have hdirs := of_decide_eq_true hown
    rw [World.boundGitDir, hdirs]
    rfl
  | false =>
    by_contra hother
    have hmarked := hp.hooks
    simp only [World.input, World.hooksInstalled, hr, hloc] at hmarked
    have hrun := hp.run
    rw [hroute] at hrun
    rw [hrun] at htake
    exact h cwd sub r s b ⟨hreal, hdepth, hcwd, hw.subcommand, hkind, hw.infoOnly, hmanaged,
      hp.snapshot, hp.binding, hp.present, hexplicit, hr, hfound, hworkTree, hother, hindex,
      hmarked, hkept, hp.call, report, htake⟩

/-- A write that runs has its binding, its hooks and its place. -/
theorem confined_of_not_misplaced (hb : ctx.bypass = false)
    (h : ∀ cwd sub r s b, ¬ Misplaced w ctx args cwd sub r s b) : w.Confined ctx args := by
  intro cwd real final messages sub hcwd hw hplan
  obtain ⟨cwd', run, report, hcwd', hclassify, hfinal, hreal, hdepth, htake⟩ := exec_cases hb hplan
  obtain rfl := Option.some.inj (hcwd.symm.trans hcwd')
  obtain ⟨hkept, hkind, hmanaged, hwrite⟩ := classify_eq_ok hw.subcommand hw.infoOnly hw.foreign
    hw.nested hw.kind hclassify
  obtain ⟨s, b, hp⟩ := write_eq_ok hwrite
  have hhooks := hp.hooks
  simp only [World.input, World.hooksInstalled] at hhooks
  rcases routeWrite_eq_ok hp.route with ⟨hloc, hroute⟩ | ⟨hloc, d, hroute, hdir, henv⟩
  · obtain ⟨r, hr, hbound, hfound, htree, hindex⟩ := boundGitDir_eq hcwd hw hloc hreal hdepth hkept
      hkind hmanaged hp htake h
    have hloc' : w.location ctx args cwd = .worktree := hloc
    rw [hr, hloc'] at hhooks
    refine ⟨s, b, hp.snapshot, hp.binding, ⟨r.gitDir, hbound, hhooks⟩, hooksPath_of_kept hkept,
      Or.inl ⟨hloc, ?_, r, hr, hbound, hfound, htree, fun f hf => ?_⟩⟩
    · rw [hfinal, World.finalArgs, hroute]
    · have hany := hindex (join (World.dir args cwd) f) (by simp only [World.input, hf, Option.map_some])
      obtain ⟨d, hd, hunder⟩ := (Option.any_eq_true _ _).mp hany
      exact ⟨d, hd, hunder⟩
  · have hloc' : w.location ctx args cwd ≠ .worktree := hloc
    obtain ⟨hok, hd⟩ := routeDir_eq_ok hdir
    obtain ⟨hisDir, hnested, hinside⟩ := routed_of_targetOk hok hd
    have hnamed := named_of_checkWorkTree hloc hp.workTree
    rw [Input.named, Bool.or_eq_false_iff] at hnamed
    have hmarker : ∃ g, w.boundGitDir ctx = some g ∧ w.files.isFile (World.marker g) = true := by
      split at hhooks
      · exact absurd ‹_› hloc'
      · exact (Option.any_eq_true _ _).mp hhooks
    refine ⟨s, b, hp.snapshot, hp.binding, hmarker, hooksPath_of_kept hkept,
      Or.inr ⟨hloc', ?_, henv, ?_⟩⟩
    · exact ⟨Option.isNone_iff_eq_none.mp (Option.isSome_eq_false_iff.mp hnamed.1),
        Option.isNone_iff_eq_none.mp (Option.isSome_eq_false_iff.mp hnamed.2)⟩
    · refine ⟨d, ?_, hd, hisDir, hnested, hinside⟩
      rw [hfinal, World.finalArgs, hroute]
      exact routedArgs_eq

/-- A git write that runs acts in the bound worktree exactly when the call is not one for which git
takes the bound worktree as the work tree of another repository. -/
theorem write_acts_in_bound_worktree (hb : ctx.bypass = false) :
    w.Confined ctx args ↔ ∀ cwd sub r s b, ¬ Misplaced w ctx args cwd sub r s b := by
  refine ⟨fun hc cwd sub r s b h => ?_, confined_of_not_misplaced hb⟩
  obtain ⟨messages, real, hplan⟩ := plan_of_misplaced hb h
  have hw : Writes w ctx args cwd sub := by
    refine ⟨h.subcommand, ?_, h.infoOnly, ?_, ?_⟩
    · rw [h.kind]
      exact nofun
    · rw [h.location]
      exact nofun
    · rw [h.location]
      exact nofun
  obtain ⟨s', b', -, -, -, -, hplace⟩ := hc cwd real args messages sub h.workingDir hw hplan
  rcases hplace with ⟨-, -, r', hr', hbound, -⟩ | ⟨hloc, -⟩
  · obtain rfl := Option.some.inj (h.resolved.symm.trans hr')
    exact h.other hbound
  · exact hloc h.location

end

/-- A commit from the workspace, where git finds no repository, runs at the top of the worktree. -/
theorem write_acts_in_bound_worktree_workspace :
    let ctx : Ctx := ⟨some "/h", some "a", false, 0, some "/h/workspace/a", none, none, none, none,
      none, []⟩
    let w : World :=
      { findReal := some "/usr/bin/git"
        files := ⟨fun _ => true, fun _ => true, fun _ => false, some⟩
        git := fun q =>
          if q.words.take 2 = ["-C", "/wt/a"] then some ⟨true, "/repo/.git/worktrees/a\n/repo/.git\n"⟩
          else some ⟨false, ""⟩
        snapshot := .ok ⟨"a", some "/repo", [], some (.work "t" "agend/t/x" "/wt/a")⟩
        isTeamRepo := false
        isTeamRemote := fun _ => false
        take := fun _ => .error "" }
    (w.plan ctx ["-c", "user.name=a", "commit"]).action =
        .exec "/usr/bin/git" ["-C", "/wt/a", "-c", "user.name=a", "commit"] ∧
      (w.Confined ctx ["-c", "user.name=a", "commit"] ↔
        ∀ cwd sub r s b, ¬ Misplaced w ctx ["-c", "user.name=a", "commit"] cwd sub r s b) := by
  intro ctx w
  exact ⟨by decide +kernel, write_acts_in_bound_worktree rfl⟩

/-- In a sibling's worktree whose own config names the bound worktree as `core.worktree`. -/
theorem commits_in_git_dir_of_sibling :
    let ctx : Ctx := ⟨some "/h", some "a", false, 0, some "/wt/b", none, none, none, none, none, []⟩
    let w : World :=
      { findReal := some "/usr/bin/git"
        files := ⟨fun _ => true, fun _ => true, fun _ => false, some⟩
        git := fun q =>
          if q.words.take 2 = ["-C", "/wt/a"] then some ⟨true, "/repo/.git/worktrees/a\n/repo/.git\n"⟩
          else some ⟨true, "/repo/.git/worktrees/b\n/repo/.git\n/wt/a\n\n"⟩
        snapshot := .ok ⟨"a", some "/repo", [], some (.work "t" "agend/t/x" "/wt/a")⟩
        isTeamRepo := false
        isTeamRemote := fun _ => false
        take := fun _ => .error "" }
    w.plan ctx ["commit"] = ⟨[], .exec "/usr/bin/git" ["commit"]⟩ ∧
      w.boundGitDir ctx = some "/repo/.git/worktrees/a" ∧
      (w.resolved ctx ["commit"] "/wt/b").map (·.gitDir) = some "/repo/.git/worktrees/b" ∧
      ¬ w.Confined ctx ["commit"] := by
  intro ctx w
  have hplan : w.plan ctx ["commit"] = ⟨[], .exec "/usr/bin/git" ["commit"]⟩ := by decide +kernel
  have hbound : w.boundGitDir ctx = some "/repo/.git/worktrees/a" := by decide +kernel
  have hused : (w.resolved ctx ["commit"] "/wt/b").map (·.gitDir) =
      some "/repo/.git/worktrees/b" := by decide +kernel
  have hloc : w.location ctx ["commit"] "/wt/b" = .worktree := by decide +kernel
  refine ⟨hplan, hbound, hused, fun hc => ?_⟩
  have hw : Writes w ctx ["commit"] "/wt/b" "commit" := by
    refine ⟨by decide +kernel, by decide +kernel, by decide +kernel, ?_, ?_⟩
    · rw [hloc]
      exact nofun
    · rw [hloc]
      exact nofun
  obtain ⟨s, b, -, -, -, -, hplace⟩ := hc "/wt/b" "/usr/bin/git" ["commit"] [] "commit" rfl hw hplan
  rcases hplace with ⟨-, -, r, hr, hgit, -⟩ | ⟨hno, -⟩
  · rw [hr] at hused
    rw [hbound] at hgit
    have hsame := (Option.some.inj hgit).trans (Option.some.inj hused)
    exact absurd hsame (by decide)
  · exact hno hloc

end Agend.Shim
