import Agend.Library.Lines
import Agend.Shim.Classify

/-! The git hooks: which ref writes an agent may make. -/
namespace Agend.Shim

open Library

/-- The words between single spaces. -/
def fields (line : String) : List String := (line.toList.splitOn ' ').map String.ofList

/-- The all-zero object name. -/
def isZero (oid : String) : Bool := oid ≠ "" && oid.toList.all (· = '0')

def noBinding (e : SnapshotError) : Refusal :=
  ⟨"no_binding", s!"the agend hook cannot read your binding ({e.display}), so it refuses branch and protected ref changes",
    "run `agend status`; the daemon rewrites the binding snapshot"⟩

def refuseProtected (refname : String) (binding : Option Binding) : Refusal :=
  ⟨"protected_ref", s!"writing {refname} is refused: it is a protected ref and only the daemon changes it",
    match binding with
    | some (.work _ branch _) => s!"commit to your branch {branch}; when the task is done run `agend done` and the daemon merges it"
    | some (.review ..) => "finish the review with: agend review approve  or  agend review changes \"<what to fix>\""
    | none => "run `agend status` to see your assignment"⟩

/-- One ref update in a transaction. -/
def checkUpdate (snap : Except SnapshotError Snapshot) (new refname : String) :
    Except Refusal Unit :=
  if refname = "refs/stash" then
    .error (refuseStash (match snap with | .ok s => s.binding | .error _ => none))
  else match snap with
    | .error e => if startsWith "refs/remotes/" refname then .ok () else .error (noBinding e)
    | .ok s =>
      if isProtected s.protectedRefs refname then .error (refuseProtected refname s.binding)
      else match stripPrefix "refs/heads/" refname with
        | none => .ok ()
        | some branch =>
          let ns := s.binding.bind Binding.namespace_
          if ns.any (startsWith · branch) = false then
            let shown := ns.getD "their own agend/<task-id>/ (you have no work binding)"
            .error ⟨"ref_not_yours", s!"writing branch {branch} is refused: agents only write branches under {shown}", stayHint s.binding⟩
          else if isZero new = true ∧ s.binding.bind Binding.branch = some branch then
            .error ⟨"ref_not_yours", s!"deleting (or renaming) your task branch {branch} is refused: the daemon owns its lifecycle", stayHint s.binding⟩
          else .ok ()

/-- One pushed ref. -/
def checkPush (snap : Except SnapshotError Snapshot) (localOid remoteRef : String) :
    Except Refusal Unit := do
  let s ← snap.mapError noBinding
  let branch ← okOr (s.binding.bind Binding.branch) ⟨"push_not_yours", "pushing is refused: you have no work binding (review bindings are read-only)", stayHint s.binding⟩
  let next := s!"push only your branch: git push origin HEAD:refs/heads/{branch}"
  require (¬ isProtected s.protectedRefs remoteRef = true)
    { refuseProtected remoteRef s.binding with next := next }
  require (remoteRef = "refs/heads/" ++ branch)
    ⟨"push_not_yours", s!"pushing to {remoteRef} is refused: agents push only their own branch {branch}", next⟩
  require (¬ isZero localOid = true)
    ⟨"push_not_yours", s!"deleting {remoteRef} is refused: the daemon owns the task branch lifecycle", next⟩

section

-- how a text is shown with its quotes and escapes
variable (debug : String → String)

def checkLine (name : String) (args : List String) (snap : Except SnapshotError Snapshot)
    (line : String) : Except (String × Refusal) Unit :=
  if name = "reference-transaction" ∧ args.head? ≠ some "prepared" then .ok ()
  else match name, fields line with
    | "reference-transaction", [_, new, refname] =>
      let verb := if isZero new then "delete" else "update"
      (checkUpdate snap new refname).mapError fun r => (s!"{verb} {refname}", r)
    | "pre-push", [_, localOid, remoteRef, _] =>
      let remote := args.head?.getD ""
      (checkPush snap localOid remoteRef).mapError fun r => (s!"push to {remoteRef} on {remote}", r)
    | _, _ => .error (line, ⟨"hook_input", s!"the agend {name} hook cannot read git's line {debug line}", "report it: agend ask \"agend hook input format\""⟩)

/-- The decision for one hook call: nothing, or what was refused and why. -/
def check (name : String) (args : List String) (input : String)
    (snap : Except SnapshotError Snapshot) : Except (String × Refusal) Unit :=
  (lines input).forM (checkLine debug name args snap)

end

/-- What a pattern of protected refs names: a branch or a full ref, or all that begin alike. -/
def Names (pattern refname : String) : Prop :=
  ∃ full, full = (if startsWith "refs/" pattern then pattern else "refs/heads/" ++ pattern) ∧
    ((∃ stem rest, full = stem ++ "*" ∧ refname = stem ++ rest) ∨
      (¬ ∃ stem, full = stem ++ "*") ∧ refname = full)

def Protected (extra : List String) (refname : String) : Prop :=
  ∃ pattern ∈ ["main", "master"] ++ extra.map trim, Names pattern refname

/-- A branch under `agend/<task>/` of a work binding. -/
def Owns (binding : Option Binding) (branch : String) : Prop :=
  ∃ taskId own worktree rest, binding = some (.work taskId own worktree) ∧
    branch = "agend/" ++ taskId ++ "/" ++ rest

/-- What an agent may write of a ref; without its snapshot only what it fetched. -/
def MayUpdate (snap : Except SnapshotError Snapshot) (new refname : String) : Prop :=
  refname ≠ "refs/stash" ∧
    match snap with
    | .error _ => ∃ rest, refname = "refs/remotes/" ++ rest
    | .ok s => ¬ Protected s.protectedRefs refname ∧ ∀ branch, refname = "refs/heads/" ++ branch →
        Owns s.binding branch ∧
          ¬ (isZero new = true ∧ s.binding.bind Binding.branch = some branch)

/-- What an agent may push: an object, to exactly its own branch. -/
def MayPush (snap : Except SnapshotError Snapshot) (localOid remoteRef : String) : Prop :=
  ∃ s taskId branch worktree, snap = .ok s ∧ s.binding = some (.work taskId branch worktree) ∧
    remoteRef = "refs/heads/" ++ branch ∧ ¬ Protected s.protectedRefs remoteRef ∧
    isZero localOid = false

theorem startsWith_iff {p s : String} : startsWith p s = true ↔ ∃ rest, s = p ++ rest := by
  rw [startsWith, List.isPrefixOf_iff_prefix]
  constructor
  · intro h
    obtain ⟨rest, hrest⟩ := h
    refine ⟨String.ofList rest, ?_⟩
    rw [← String.toList_inj, String.toList_append, String.toList_ofList, hrest]
  · intro h
    obtain ⟨rest, hrest⟩ := h
    exact ⟨rest.toList, by rw [hrest, String.toList_append]⟩

theorem stripPrefix_iff {p s rest : String} : stripPrefix p s = some rest ↔ s = p ++ rest := by
  rw [stripPrefix]
  constructor
  · intro h
    by_cases hp : startsWith p s = true
    · obtain ⟨rest', hrest'⟩ := startsWith_iff.mp hp
      rw [if_pos hp, Option.some_inj, hrest', String.toList_append, List.drop_left] at h
      rw [hrest', ← h, String.ofList_toList]
    · rw [if_neg hp] at h
      exact absurd h nofun
  · intro h
    rw [if_pos (startsWith_iff.mpr ⟨rest, h⟩), h, String.toList_append, List.drop_left,
      String.ofList_toList]

theorem endsWith_star {s : String} : s.toList.getLast? = some '*' ↔ ∃ stem, s = stem ++ "*" := by
  constructor
  · intro h
    obtain ⟨stem, hstem⟩ := List.getLast?_eq_some_iff.mp h
    exact ⟨String.ofList stem, by rw [← String.toList_inj, hstem]; simp⟩
  · intro h
    obtain ⟨stem, hstem⟩ := h
    simp [hstem]

theorem isProtected_iff {extra : List String} {refname : String} :
    isProtected extra refname = true ↔ Protected extra refname := by
  rw [isProtected, List.any_eq_true]
  apply exists_congr
  intro pattern
  apply and_congr_right
  intro _
  simp only [Names, exists_eq_left]
  generalize (if startsWith "refs/" pattern = true then pattern else "refs/heads/" ++ pattern) = full
  by_cases hstar : full.toList.getLast? = some '*'
  · obtain ⟨stem, hstem⟩ := endsWith_star.mp hstar
    have hdrop : String.ofList full.toList.dropLast = stem := by simp [hstem]
    rw [if_pos hstar, hdrop, startsWith_iff]
    constructor
    · intro h
      obtain ⟨rest, hrest⟩ := h
      exact .inl ⟨stem, rest, hstem, hrest⟩
    · intro h
      cases h with
      | inl h =>
        obtain ⟨stem', rest, hstem', hrest⟩ := h
        have hsame : stem = stem' := by simpa using hstem.symm.trans hstem'
        exact ⟨rest, hsame ▸ hrest⟩
      | inr h => exact absurd ⟨stem, hstem⟩ h.1
  · have hnone : ¬ ∃ stem, full = stem ++ "*" := fun h => hstar (endsWith_star.mpr h)
    rw [if_neg hstar, decide_eq_true_iff]
    constructor
    · exact fun h => .inr ⟨hnone, h⟩
    · intro h
      cases h with
      | inl h =>
        obtain ⟨stem, _, hstem, _⟩ := h
        exact absurd ⟨stem, hstem⟩ hnone
      | inr h => exact h.2

theorem owns_iff {binding : Option Binding} {branch : String} :
    (binding.bind Binding.namespace_).any (startsWith · branch) = true ↔ Owns binding branch := by
  cases binding with
  | none => simp [Owns]
  | some b =>
    cases b with
    | review taskId head worktree => simp [Owns, Binding.namespace_]
    | work taskId own worktree =>
      have hns : s!"agend/{taskId}/" = "agend/" ++ taskId ++ "/" := rfl
      simp only [Owns, Binding.namespace_, Option.bind_some, Option.any_some, startsWith_iff,
        Option.some_inj, Binding.work.injEq, hns]
      constructor
      · intro h
        obtain ⟨rest, hrest⟩ := h
        exact ⟨taskId, own, worktree, rest, ⟨rfl, rfl, rfl⟩, hrest⟩
      · intro h
        obtain ⟨_, _, _, rest, ⟨htask, _, _⟩, hrest⟩ := h
        exact ⟨rest, htask ▸ hrest⟩

theorem checkUpdate_iff {snap : Except SnapshotError Snapshot} {new refname : String} :
    checkUpdate snap new refname = .ok () ↔ MayUpdate snap new refname := by
  unfold checkUpdate MayUpdate
  by_cases hstash : refname = "refs/stash"
  · rw [if_pos hstash]
    exact ⟨nofun, fun h => absurd hstash h.1⟩
  rw [if_neg hstash]
  cases snap with
  | error e =>
    by_cases hremote : startsWith "refs/remotes/" refname = true
    · simp only [if_pos hremote, true_iff]
      exact ⟨hstash, startsWith_iff.mp hremote⟩
    · simp only [if_neg hremote]
      exact ⟨nofun, fun h => absurd (startsWith_iff.mpr h.2) hremote⟩
  | ok s =>
    by_cases hprotected : isProtected s.protectedRefs refname = true
    · simp only [if_pos hprotected]
      exact ⟨nofun, fun h => absurd (isProtected_iff.mp hprotected) h.2.1⟩
    have hfree : ¬ Protected s.protectedRefs refname := fun h => hprotected (isProtected_iff.mpr h)
    simp only [if_neg hprotected]
    cases hbranch : stripPrefix "refs/heads/" refname with
    | none =>
      refine ⟨fun _ => ⟨hstash, hfree, fun branch h => ?_⟩, fun _ => rfl⟩
      rw [stripPrefix_iff.mpr h] at hbranch
      exact absurd hbranch nofun
    | some branch =>
      have hname := stripPrefix_iff.mp hbranch
      have honly : ∀ other, refname = "refs/heads/" ++ other → other = branch := by
        intro other hother
        rw [stripPrefix_iff.mpr hother] at hbranch
        exact Option.some_inj.mp hbranch
      by_cases howns : Owns s.binding branch
      · have hany := owns_iff.mpr howns
        simp only [hany, Bool.true_eq_false, if_false]
        by_cases hdelete : isZero new = true ∧ s.binding.bind Binding.branch = some branch
        · rw [if_pos hdelete]
          exact ⟨nofun, fun h => absurd hdelete (h.2.2 branch hname).2⟩
        · rw [if_neg hdelete]
          refine ⟨fun _ => ⟨hstash, hfree, fun other hother => ?_⟩, fun _ => rfl⟩
          rw [honly other hother]
          exact ⟨howns, hdelete⟩
      · have hany : (s.binding.bind Binding.namespace_).any (startsWith · branch) = false := by
          rw [← Bool.not_eq_true, owns_iff]
          exact howns
        simp only [hany, if_true]
        exact ⟨nofun, fun h => absurd (h.2.2 branch hname).1 howns⟩

theorem checkPush_iff {snap : Except SnapshotError Snapshot} {localOid remoteRef : String} :
    checkPush snap localOid remoteRef = .ok () ↔ MayPush snap localOid remoteRef := by
  simp only [checkPush, bind_eq_ok, mapError_eq_ok, okOr_eq_ok, require_eq_ok, MayPush]
  constructor
  · intro h
    obtain ⟨s, hs, branch, hbranch, _, hprotected, _, hremote, hzero⟩ := h
    obtain ⟨b, hb, hown⟩ := Option.bind_eq_some_iff.mp hbranch
    cases b with
    | review taskId head worktree => exact absurd hown nofun
    | work taskId own worktree =>
      have hsame : own = branch := Option.some_inj.mp hown
      refine ⟨s, taskId, branch, worktree, hs, hsame ▸ hb, hremote, ?_, ?_⟩
      · exact fun h => hprotected (isProtected_iff.mpr h)
      · exact Bool.eq_false_iff.mpr hzero
  · intro h
    obtain ⟨s, taskId, branch, worktree, hs, hb, hremote, hprotected, hzero⟩ := h
    refine ⟨s, hs, branch, ?_, (), ?_, (), hremote, ?_⟩
    · rw [hb]
      rfl
    · exact fun h => hprotected (isProtected_iff.mp h)
    · rw [hzero]
      exact Bool.false_ne_true

section

variable {debug : String → String} {name : String} {args : List String} {input : String}
  {snap : Except SnapshotError Snapshot} {line : String}

theorem check_iff : check debug name args input snap = .ok () ↔
    ∀ line ∈ lines input, checkLine debug name args snap line = .ok () := by
  rw [check]
  induction lines input with
  | nil => simp [pure_eq_ok]
  | cons line rest ih =>
    change (checkLine debug name args snap line >>= fun _ => rest.forM _) = _ ↔ _
    rw [bind_eq_ok, List.forall_mem_cons]
    constructor
    · intro h
      obtain ⟨_, hline, hrest⟩ := h
      exact ⟨hline, ih.mp hrest⟩
    · intro h
      exact ⟨(), h.1, ih.mpr h.2⟩

theorem checkLine_update (hargs : args.head? = some "prepared") :
    checkLine debug "reference-transaction" args snap line = .ok () ↔
      ∃ old new refname, fields line = [old, new, refname] ∧ MayUpdate snap new refname := by
  unfold checkLine
  rw [if_neg (fun h => h.2 hargs)]
  split
  case h_1 _ old new refname _ hfields =>
    rw [mapError_eq_ok, checkUpdate_iff]
    constructor
    · intro h
      exact ⟨old, new, refname, hfields, h⟩
    · intro h
      obtain ⟨_, _, _, hsame, hmay⟩ := h
      rw [hfields] at hsame
      cases hsame
      exact hmay
  case h_2 hname _ => exact absurd hname (by decide)
  case h_3 _ _ hno _ =>
    refine ⟨nofun, fun h => ?_⟩
    obtain ⟨old, new, refname, hfields, _⟩ := h
    exact absurd hfields (hno old new refname rfl)

theorem checkLine_push : checkLine debug "pre-push" args snap line = .ok () ↔
    ∃ localRef localOid remoteRef remoteOid,
      fields line = [localRef, localOid, remoteRef, remoteOid] ∧
        MayPush snap localOid remoteRef := by
  unfold checkLine
  rw [if_neg (fun h => absurd h.1 (by decide))]
  split
  case h_1 hname _ => exact absurd hname (by decide)
  case h_2 _ localRef localOid remoteRef remoteOid _ hfields =>
    rw [mapError_eq_ok, checkPush_iff]
    constructor
    · intro h
      exact ⟨localRef, localOid, remoteRef, remoteOid, hfields, h⟩
    · intro h
      obtain ⟨_, _, _, _, hsame, hmay⟩ := h
      rw [hfields] at hsame
      cases hsame
      exact hmay
  case h_3 _ _ _ hno =>
    refine ⟨nofun, fun h => ?_⟩
    obtain ⟨localRef, localOid, remoteRef, remoteOid, hfields, _⟩ := h
    exact absurd hfields (hno localRef localOid remoteRef remoteOid rfl)

end

/-- The object that every ref names. -/
abbrev Refs := String → Option String

/-- Git writes every ref that a line lists. -/
def applyLine (refs : Refs) (line : String) : Refs :=
  match fields line with
  | [_, new, refname] => Function.update refs refname (if isZero new then none else some new)
  | _ => refs

/-- One ref transaction with the snapshot under which its hook ran. -/
structure Transaction where
  snapshot : Snapshot
  args : List String
  input : String

def Transaction.apply (refs : Refs) (t : Transaction) : Refs :=
  (lines t.input).foldl applyLine refs

/-- Accepted in the state in which the hook can still refuse, under a binding. -/
structure Transaction.Accepted (debug : String → String) (b : Option Binding) (t : Transaction) :
    Prop where
  prepared : t.args.head? = some "prepared"
  binding : t.snapshot.binding = b
  ok : check debug "reference-transaction" t.args t.input (.ok t.snapshot) = .ok ()

/-- A ref that no accepted transaction changes. -/
def OffLimits (b : Option Binding) (transactions : List Transaction) (refname : String) : Prop :=
  refname = "refs/stash" ∨ (∀ t ∈ transactions, Protected t.snapshot.protectedRefs refname) ∨
    ∃ branch, refname = "refs/heads/" ++ branch ∧ ¬ Owns b branch

section

variable {debug : String → String} {b : Option Binding} {refs : Refs} {t : Transaction}
  {refname branch : String}

/-- What holds of the refs before every line holds after it. -/
theorem apply_rule {P : Refs → Prop} (haccepted : t.Accepted debug b)
    (hline : ∀ refs new refname, MayUpdate (.ok t.snapshot) new refname → P refs →
      P (Function.update refs refname (if isZero new then none else some new)))
    (h : P refs) : P (t.apply refs) := by
  have hlines := check_iff.mp haccepted.ok
  rw [Transaction.apply]
  generalize lines t.input = all at hlines
  induction all generalizing refs with
  | nil => exact h
  | cons line rest ih =>
    obtain ⟨old, new, refname, hfields, hmay⟩ :=
      (checkLine_update haccepted.prepared).mp (hlines line List.mem_cons_self)
    have hstep : applyLine refs line =
        Function.update refs refname (if isZero new then none else some new) := by
      simp [applyLine, hfields]
    rw [List.foldl_cons, hstep]
    exact ih (hline refs new refname hmay h) fun l hl => hlines l (List.mem_cons_of_mem _ hl)

theorem apply_offLimits (haccepted : t.Accepted debug b) (h : OffLimits b [t] refname) :
    t.apply refs refname = refs refname := by
  apply apply_rule (P := fun refs' => refs' refname = refs refname) haccepted _ rfl
  intro refs' new written hmay hkept
  have hne : refname ≠ written := by
    intro heq
    rw [← heq] at hmay
    obtain ⟨hstash, hfree, hbranch⟩ := hmay
    rcases h with h | h | ⟨branch, hname, hnot⟩
    · exact hstash h
    · exact hfree (h t List.mem_cons_self)
    · exact hnot (haccepted.binding ▸ (hbranch branch hname).1)
  rw [Function.update_of_ne hne, hkept]

theorem apply_bound (haccepted : t.Accepted debug b) (hbound : b.bind Binding.branch = some branch)
    (h : (refs ("refs/heads/" ++ branch)).isSome) :
    (t.apply refs ("refs/heads/" ++ branch)).isSome := by
  apply apply_rule (P := fun refs' => (refs' ("refs/heads/" ++ branch)).isSome) haccepted _ h
  intro refs' new written hmay hthere
  by_cases heq : "refs/heads/" ++ branch = written
  · have hnot := (hmay.2.2 branch heq.symm).2
    have hzero : isZero new = false := by
      apply Bool.eq_false_iff.mpr
      intro hzero
      exact hnot ⟨hzero, haccepted.binding ▸ hbound⟩
    rw [← heq, Function.update_self, hzero]
    rfl
  · rw [Function.update_of_ne heq]
    exact hthere

end

/-- A transaction passes exactly when every line writes a ref that the agent may write, a push
exactly when every line pushes an object to its own branch, in whatever order the lines come; and
along accepted transactions nothing else changes and the bound branch stays. -/
theorem hooks_accept_exactly (debug : String → String) :
    (∀ args input snap, args.head? = some "prepared" →
      (check debug "reference-transaction" args input snap = .ok () ↔ ∀ line ∈ lines input,
        ∃ old new refname, fields line = [old, new, refname] ∧ MayUpdate snap new refname)) ∧
    (∀ args input snap, check debug "pre-push" args input snap = .ok () ↔ ∀ line ∈ lines input,
      ∃ localRef localOid remoteRef remoteOid,
        fields line = [localRef, localOid, remoteRef, remoteOid] ∧
          MayPush snap localOid remoteRef) ∧
    (∀ name args input input' snap, (lines input).Perm (lines input') →
      (check debug name args input snap = .ok () ↔ check debug name args input' snap = .ok ())) ∧
    ∀ b (transactions : List Transaction) (refs : Refs),
      (∀ t ∈ transactions, t.Accepted debug b) →
      (∀ refname, OffLimits b transactions refname →
        transactions.foldl Transaction.apply refs refname = refs refname) ∧
      ∀ branch, b.bind Binding.branch = some branch → (refs ("refs/heads/" ++ branch)).isSome →
        (transactions.foldl Transaction.apply refs ("refs/heads/" ++ branch)).isSome := by
  refine ⟨?_, ?_, ?_, ?_⟩
  · intro args input snap hargs
    rw [check_iff]
    exact forall₂_congr fun line _ => checkLine_update hargs
  · intro args input snap
    rw [check_iff]
    exact forall₂_congr fun line _ => checkLine_push
  · intro name args input input' snap hperm
    rw [check_iff, check_iff]
    constructor
    · exact fun h line hline => h line (hperm.mem_iff.mpr hline)
    · exact fun h line hline => h line (hperm.mem_iff.mp hline)
  · intro b transactions
    induction transactions with
    | nil => exact fun refs _ => ⟨fun _ _ => rfl, fun _ _ h => h⟩
    | cons t rest ih =>
      intro refs haccepted
      have hfirst := haccepted t List.mem_cons_self
      obtain ⟨hkept, hthere⟩ :=
        ih (t.apply refs) fun t' ht' => haccepted t' (List.mem_cons_of_mem _ ht')
      constructor
      · intro refname hoff
        rw [List.foldl_cons, hkept refname ?_, apply_offLimits hfirst ?_]
        · exact hoff.imp_right (Or.imp_left fun h t' ht' => by
          rw [List.mem_singleton.mp ht']
          exact h t List.mem_cons_self)
        · exact hoff.imp_right (Or.imp_left fun h t' ht' => h t' (List.mem_cons_of_mem _ ht'))
      · intro branch hbound h
        rw [List.foldl_cons]
        exact hthere branch hbound (apply_bound hfirst hbound h)

/-- Two transactions move the bound branch on and make and delete another; main stays. -/
theorem hooks_accept_exactly_advanced :
    let b : Option Binding := some (.work "t-1" "agend/t-1/fix" "/wt")
    let s : Snapshot := ⟨"g-1", some "/repo", ["release/*"], b⟩
    let first : Transaction := ⟨s, ["prepared"],
      "1 2 refs/heads/agend/t-1/fix\n0 3 refs/heads/agend/t-1/side\n1 2 HEAD\n"⟩
    let second : Transaction := ⟨s, ["prepared"],
      "2 4 refs/heads/agend/t-1/fix\n3 0 refs/heads/agend/t-1/side\n"⟩
    let refs : Refs := fun refname =>
      if refname ∈ ["refs/heads/main", "refs/heads/agend/t-1/fix"] then some "1" else none
    let advanced := [first, second].foldl Transaction.apply refs
    (advanced "refs/heads/agend/t-1/fix" = some "4" ∧
      advanced "refs/heads/agend/t-1/side" = none) ∧
      (∀ line ∈ lines second.input, ∃ old new refname,
        fields line = [old, new, refname] ∧ MayUpdate (.ok s) new refname) ∧
      advanced "refs/heads/main" = some "1" ∧
        (advanced "refs/heads/agend/t-1/fix").isSome := by
  intro b s first second refs advanced
  have hfirst : first.Accepted id b := ⟨rfl, rfl, by decide +kernel⟩
  have hsecond : second.Accepted id b := ⟨rfl, rfl, by decide +kernel⟩
  obtain ⟨hupdate, -, -, hruns⟩ := hooks_accept_exactly id
  obtain ⟨hkept, hbound⟩ := hruns b [first, second] refs (by simp [hfirst, hsecond])
  have hmain : OffLimits b [first, second] "refs/heads/main" := by
    have hprotected : Protected s.protectedRefs "refs/heads/main" :=
      isProtected_iff.mp (by decide +kernel)
    exact .inr (.inl (by simp [first, second, hprotected]))
  exact ⟨by decide +kernel, (hupdate _ _ _ rfl).mp hsecond.ok, hkept _ hmain,
    hbound "agend/t-1/fix" rfl rfl⟩

/-- Deleting the bound branch and a line with four fields are refused. -/
example :
    let s : Snapshot := ⟨"g", none, [], some (.work "t" "agend/t/fix" "/wt")⟩
    let run (input : String) := (check id "reference-transaction" ["prepared"] input (.ok s)).isOk
    run "1 0 refs/heads/agend/t/fix\n" = false ∧ run "1 2 HEAD x\n" = false := by
  decide +kernel

end Agend.Shim
