import Agend.OpenCode.Answered
import Agend.Pipeline.Invariant

/-! Each successful claim is the only one of its row, is of what was observed, and a worktree is
granted to its owner only. -/
namespace Agend.OpenCode

open Library
open Agend.Engine (TaskRow BindingRow)

section

variable {κ : Type} [DecidableEq κ] {digest : String × String × String × Json → κ}
  {reread : Json → Except String Json} {s s' : Permissions κ} {c : Request κ} {o : Answer}
  {id : κ} {r r' : Row κ} {p : Permission} {i : String} {now : Nat} {allow : Bool}
  {files : Files} {grant : Grant} {a : Option (String × Permission)}
  {h : List (Transition (Permissions κ) (Request κ) Answer)}

/-- The call claimed the row, for the agent to be answered on the request. -/
def Claims (id : κ) (i : String) (p : Permission)
    (t : Transition (Permissions κ) (Request κ) Answer) : Prop :=
  t.output = .ok (some (i, p)) ∧ ((∃ allow now, t.event = .claim id allow now) ∨
    ∃ files grant now, t.event = .claimWorktree files id grant now)

/-- The call recorded a request of the agent and its session, with the same id and body. -/
def Observes (i : String) (p : Permission)
    (t : Transition (Permissions κ) (Request κ) Answer) : Prop :=
  t.output = .ok none ∧ ∃ ps now q, t.event = .observe i p.session ps now ∧ q ∈ ps ∧
    q.session = p.session ∧ q.id = p.id ∧ q.native = p.native

/-- The request is of the directory of the work that the agent does now, and the grant is of this
work. -/
structure Owned (s : Permissions κ) (files : Files) (i : String) (p : Permission) (grant : Grant) :
    Prop where
  kind : p.kind = "external_directory"
  pattern : p.patterns = [grant.worktree ++ "/*"]
  literal : ∀ c ∈ grant.worktree.toList, isGlob c = false
  absolute : Path.isAbsolute grant.worktree = true
  directory : files.isDir grant.worktree = true
  canonical : ∃ path, files.canonical grant.worktree = some path ∧
    Path.samePath path grant.worktree = true
  bound : ∃ b t w state stage,
    s.owned.bindings.get i = some b ∧ b.kind = .work ∧ b.status = .ready ∧
    b.task = grant.task ∧ b.ticket = grant.ticket ∧ b.worktree = grant.worktree ∧
    s.owned.tasks.get grant.task = some t ∧ t.task.assignee = some i ∧
    t.task.status = .running ∧ t.task.requiresRepo = true ∧ t.version = grant.version ∧
    s.owned.workflows.lookup (t.task.workflowId, t.task.workflowVersion) = some (.ok w) ∧
    w.id = t.task.workflowId ∧ w.version = t.task.workflowVersion ∧ w.requiresRepo = true ∧
    pipelineOf t w = .ok state ∧ state.taskId = grant.task ∧ state.status = .running ∧
    state.currentStage = some stage ∧ stage.isKind .work = true ∧
    grant.ticket = grant.task ++ "/" ++ stage.id ++ "/" ++ toString state.attempt

theorem names_eq_true {worktree pattern : String} (hn : names files worktree pattern = true) :
    (∀ c ∈ worktree.toList, isGlob c = false) ∧ Path.isAbsolute worktree = true ∧
      files.isDir worktree = true ∧
      (∃ path, files.canonical worktree = some path ∧ Path.samePath path worktree = true) ∧
      pattern = worktree ++ "/*" := by
  simp only [names, Bool.and_eq_true, Bool.not_eq_true', List.any_eq_false, Bool.not_eq_true,
    Option.any_eq_true, decide_eq_true_eq] at hn
  obtain ⟨⟨⟨⟨hglob, habs⟩, hdir⟩, hcanonical⟩, hpattern⟩ := hn
  exact ⟨hglob, habs, hdir, hcanonical, hpattern⟩

theorem atWork_eq_true {state : Pipeline.PipelineState} {task ticket : String}
    (hw : atWork state task ticket = true) :
    state.taskId = task ∧ state.status = .running ∧ ∃ stage, state.currentStage = some stage ∧
      stage.isKind .work = true ∧
      ticket = task ++ "/" ++ stage.id ++ "/" ++ toString state.attempt := by
  unfold atWork at hw
  split at hw
  · cases hw
  · rename_i stage hstage
    simp only [Bool.and_eq_true, decide_eq_true_eq] at hw
    obtain ⟨⟨⟨htask, hstatus⟩, hkind⟩, hticket⟩ := hw
    exact ⟨htask, hstatus, stage, hstage, hkind, hticket⟩

theorem workOf_eq_some {b : BindingRow} {t : TaskRow} {w : Except String Pipeline.Workflow}
    (hw : s.workOf i = some (b, t, w)) :
    s.owned.bindings.get i = some b ∧ b.kind = .work ∧ b.status = .ready ∧
      s.owned.tasks.get b.task = some t ∧ t.task.assignee = some i ∧ t.task.status = .running ∧
      t.task.requiresRepo = true ∧
      s.owned.workflows.lookup (t.task.workflowId, t.task.workflowVersion) = some w := by
  simp only [Permissions.workOf, Option.bind_eq_bind, Option.bind_eq_some_iff,
    Option.filter_eq_some_iff, Bool.and_eq_true, decide_eq_true_eq, Option.pure_def] at hw
  obtain ⟨b', ⟨hb, hkind, hready⟩, t', ⟨ht, ⟨hassignee, hrunning⟩, hrepo⟩, w', hlookup, he⟩ := hw
  obtain ⟨rfl, htw⟩ := Prod.mk.inj (Option.some.inj he)
  obtain ⟨rfl, rfl⟩ := Prod.mk.inj htw
  have hi : b'.instanceId = i := (Table.get_eq_some.mp hb).2
  exact ⟨hb, hkind, hready, ht, hi ▸ hassignee, hrunning, hrepo, hlookup⟩

theorem grantOf_eq_some (hg : s.grantOf files r p = .ok (some grant)) :
    Owned s files r.instanceId p grant := by
  unfold Permissions.grantOf at hg
  split at hg
  case h_2 => cases Except.ok.inj hg
  rename_i pattern hpatterns
  split_ifs at hg with hkind
  · cases Except.ok.inj hg
  split at hg
  · cases Except.ok.inj hg
  rename_i b t w hwork
  obtain ⟨hb, hbkind, hready, ht, hassignee, hrunning, hrepo, hlookup⟩ := workOf_eq_some hwork
  obtain ⟨_, -, hg1⟩ := bind_eq_ok.mp hg
  clear hg
  split_ifs at hg1 with hnames
  · cases Except.ok.inj hg1
  obtain ⟨hliteral, habs, hdir, hcanonical, hpattern⟩ := names_eq_true (by simpa using hnames)
  obtain ⟨w', hw', hg2⟩ := bind_eq_ok.mp hg1
  clear hg1
  split_ifs at hg2 with hworkflow
  · cases Except.ok.inj hg2
  push Not at hworkflow
  obtain ⟨hid, hversion, hrequires⟩ := hworkflow
  obtain ⟨state, hstate, hg3⟩ := bind_eq_ok.mp hg2
  clear hg2
  split_ifs at hg3 with hat
  · obtain ⟨htask, hstatus, stage, hstage, hstageKind, hticket⟩ := atWork_eq_true hat
    obtain rfl := Option.some.inj (Except.ok.inj hg3)
    have hbt : t.id = b.task := (Table.get_eq_some.mp ht).2
    exact
      { kind := by simpa using hkind
        pattern := hpattern ▸ hpatterns
        literal := hliteral
        absolute := habs
        directory := hdir
        canonical := hcanonical
        bound := ⟨b, t, w', state, stage, hb, hbkind, hready, hbt.symm, rfl, rfl, hbt ▸ ht,
          hassignee, hrunning, hrepo, rfl, hw' ▸ hlookup, hid, hversion, by simpa using hrequires,
          hstate, htask, hstatus, hstage, hstageKind, hticket⟩ }
  · cases Except.ok.inj hg3

/-- What is eligible is a row of the table, read as a claim of it reads it. -/
theorem eligible_eq_some (he : s.eligible digest reread files id = .ok (some grant)) :
    ∃ r p, s.rows.get id = some r ∧
      Permissions.stored digest reread r "missing permission" = .ok p ∧
      Owned s files r.instanceId p grant := by
  obtain ⟨shown, hshown, he⟩ := bind_eq_ok.mp he
  split at he
  · cases Except.ok.inj he
  · rename_i r p hfind
    have hp := List.find?_some hfind
    simp only [Bool.and_eq_true, decide_eq_true_eq] at hp
    obtain ⟨r', hr', hread⟩ := exists_of_mem_mapM hshown _ (List.mem_of_find?_eq_some hfind)
    obtain ⟨q, hq, hpair⟩ := map_eq_ok.mp hread
    obtain ⟨rfl, rfl⟩ := Prod.mk.inj hpair
    refine ⟨r', q, ?_, hq, grantOf_eq_some he⟩
    exact hp.1 ▸ Table.get_of_mem (List.mem_of_mem_filter hr')

/-- A successful claim of a worktree, at the moment of the claim. -/
theorem claimWorktree_owned
    (hc : s.claimWorktree digest reread files id grant now = .ok (s', some (i, p))) :
    Owned s files i p grant := by
  rcases claimWorktree_eq_ok hc with ⟨-, hnone⟩ | ⟨heligible, hclaim⟩
  · cases hnone
  · obtain ⟨r, q, hr, hq, howned⟩ := eligible_eq_some heligible
    obtain ⟨r', hr', -, rfl, hp, -⟩ := claim_eq_some hclaim
    obtain rfl := Option.some.inj (hr.symm.trans hr')
    obtain rfl := Except.ok.inj (((stored_eq_ok hq).2.2 _).symm.trans hp)
    exact howned

/-- Every row is of a request that an earlier call observed for its agent. -/
def RowsObserved (digest : String × String × String × Json → κ)
    (h : List (Transition (Permissions κ) (Request κ) Answer)) (s : Permissions κ) : Prop :=
  ∀ id r, s.rows.get id = some r → ∃ t ∈ h, t.output = .ok none ∧ ∃ ps now,
    t.event = .observe r.instanceId r.sessionId ps now ∧ ∃ q ∈ ps, q.session = r.sessionId ∧
      identity digest r.instanceId q = id

theorem exec_observe {session : String} {ps : List Permission}
    (hexec : s.exec digest reread (.observe i session ps now) = .ok (s', a)) : a = none := by
  obtain ⟨t, -, he⟩ := map_eq_ok.mp hexec
  exact (Prod.mk.inj he).2.symm

theorem call_observe_ok {session : String} {ps : List Permission}
    (hs : (permissions digest reread).step s (.observe i session ps now) s' o)
    (hne : ¬ ∃ text, o = .error text) : o = .ok none := by
  have hcall : s.call digest reread (.observe i session ps now) = (s', o) := hs
  unfold Permissions.call at hcall
  split at hcall
  · rename_i t answer hexec
    rw [← (Prod.mk.inj hcall).2, exec_observe hexec]
  · rename_i text hexec
    exact absurd ⟨text, (Prod.mk.inj hcall).2.symm⟩ hne

theorem call_error {text : String} (hs : (permissions digest reread).step s c s' (.error text)) :
    s' = s := by
  have hcall : s.call digest reread c = (s', .error text) := hs
  unfold Permissions.call at hcall
  split at hcall
  · cases (Prod.mk.inj hcall).2
  · exact (Prod.mk.inj hcall).1.symm

theorem rowsObserved (hr : (permissions digest reread).Run h s) : RowsObserved digest h s := by
  refine Machine.Run.invariant ?_ ?_ hr
  · intro s hs id r hget
    have hmem := (Table.get_eq_some.mp hget).1
    rw [show s.rows.rows = [] from hs] at hmem
    cases hmem
  · intro h s c s' o _ ih hs id r' hget
    have hkept := rowsKept_step hs id r' hget
    by_cases hne : ∃ text, o = .error text
    · obtain ⟨text, rfl⟩ := hne
      rw [call_error hs] at hget
      obtain ⟨t, ht, hrest⟩ := ih id r' hget
      exact ⟨t, List.mem_cons_of_mem _ ht, hrest⟩
    · rcases hkept with ⟨r, hr, hk⟩ | ⟨-, i, session, ps, now, rfl, rfl, rfl, hq⟩
      · obtain ⟨t, ht, hrest⟩ := ih id r hr
        rw [← hk.instanceId, ← hk.sessionId] at hrest
        exact ⟨t, List.mem_cons_of_mem _ ht, hrest⟩
      · exact ⟨_, List.mem_cons_self, call_observe_ok hs hne, ps, now, rfl, hq⟩

/-- What a successful claim found and left, by either way. -/
theorem claims_eq {t : Transition (Permissions κ) (Request κ) Answer}
    (hs : (permissions digest reread).step t.before t.event t.after t.output)
    (hc : Claims id i p t) :
    ∃ r, t.before.rows.get id = some r ∧ t.before.claimable r = true ∧ i = r.instanceId ∧
      Permissions.stored digest reread r "missing stored permission" = .ok p ∧
      ∃ r', t.after.rows.get id = some r' ∧ r'.attemptedAtUnixMs.isSome = true := by
  obtain ⟨s, c, s', o⟩ := t
  obtain ⟨rfl, hevent⟩ := hc
  have hclaim : ∃ allow now, s.claim digest reread id allow now = .ok (s', some (i, p)) := by
    have hcall : s.call digest reread c = (s', .ok (some (i, p))) := hs
    unfold Permissions.call at hcall
    split at hcall
    case h_2 => cases (Prod.mk.inj hcall).2
    rename_i t answer hexec
    obtain ⟨rfl, ha⟩ := Prod.mk.inj hcall
    obtain rfl := Except.ok.inj ha
    rcases hevent with ⟨allow, now, rfl⟩ | ⟨files, grant, now, rfl⟩
    · exact ⟨allow, now, hexec⟩
    · rcases claimWorktree_eq_ok hexec with ⟨-, hnone⟩ | ⟨-, hclaim⟩
      · cases hnone
      · exact ⟨true, now, hclaim⟩
  obtain ⟨allow, now, hclaim⟩ := hclaim
  obtain ⟨r, hr, hclaimable, hi, hp, rfl⟩ := claim_eq_some hclaim
  obtain rfl : r.id = id := (Table.get_eq_some.mp hr).2
  exact ⟨r, hr, hclaimable, hi, hp, { r with
    decision := some allow
    attemptedAtUnixMs := some now
    status := .unknown }, Table.get_put_self, rfl⟩

theorem claimable_eq_true (hc : s.claimable r = true) :
    r.status = .pending ∧ r.attemptedAtUnixMs = none ∧
      s.hosts r.instanceId r.sessionId = true := by
  simp only [Permissions.claimable, Bool.and_eq_true, decide_eq_true_eq,
    Option.isNone_iff_eq_none] at hc
  exact ⟨hc.1.1, hc.1.2, hc.2⟩

/-- The row is there and was attempted. -/
def Attempted (id : κ) (s : Permissions κ) : Prop :=
  ∃ r, s.rows.get id = some r ∧ r.attemptedAtUnixMs.isSome = true

/-- An attempted row stays attempted as long as it is there. -/
theorem attempted_step (hs : (permissions digest reread).step s c s' o) (ha : Attempted id s) :
    Attempted id s' ∨ s'.rows.get id = none := by
  obtain ⟨x, hx, hat⟩ := ha
  cases hget : s'.rows.get id with
  | none => exact Or.inr rfl
  | some r' =>
    rcases rowsKept_step hs id r' hget with ⟨r, hr, hk⟩ | ⟨hnone, -⟩
    · obtain rfl := Option.some.inj (hx.symm.trans hr)
      exact Or.inl ⟨r', hget, hk.attempted hat⟩
    · cases hx.symm.trans hnone

/-- What a run promises of its claims. -/
structure AnsweredOnce (digest : String × String × String × Json → κ)
    (h : List (Transition (Permissions κ) (Request κ) Answer)) : Prop where
  /-- Between two successful claims of a request its row was gone. -/
  once : ∀ newer middle older t u, h = newer ++ u :: (middle ++ t :: older) →
    ∀ id i p j q, Claims id i p t → Claims id j q u → ∃ v ∈ middle, v.after.rows.get id = none
  /-- A claim returns what was observed, while the agent runs OpenCode push in that session. -/
  returned : ∀ newer older t, h = newer ++ t :: older → ∀ id i p, Claims id i p t →
    identity digest i p = id ∧ t.before.hosts i p.session = true ∧ ∃ u ∈ older, Observes i p u
  /-- Without the operator, only what the work of the agent owns at this moment. -/
  granted : ∀ t ∈ h, ∀ files id grant now i p, t.event = .claimWorktree files id grant now →
    t.output = .ok (some (i, p)) → Owned t.before files i p grant

/-- Any calls in any order, when digests do not collide. -/
theorem permission_answered_once (digest : String × String × String × Json → κ)
    (reread : Json → Except String Json) (hinj : Function.Injective digest)
    (hr : (permissions digest reread).Run h s) : AnsweredOnce digest h where
  once := by
    rintro newer middle older t u rfl id i p j q ht hu
    obtain ⟨hbefore, hustep⟩ := hr.split
    obtain ⟨-, htstep⟩ := hbefore.split
    obtain ⟨-, -, -, -, -, hattempted⟩ := claims_eq htstep ht
    obtain ⟨r, hget, hclaimable, -⟩ := claims_eq hustep hu
    have hunless := hbefore.unless (D := Attempted id) (E := fun v => v.after.rows.get id = none)
      (fun _ _ _ _ _ hs ha => attempted_step hs ha) hattempted
    rcases hunless with ⟨r', hr', hat⟩ | hgone
    · obtain rfl := Option.some.inj (hget.symm.trans hr')
      rw [(claimable_eq_true hclaimable).2.1] at hat
      cases hat
    · exact hgone
  returned := by
    rintro newer older t rfl id i p ht
    obtain ⟨hbefore, hstep⟩ := hr.split
    obtain ⟨r, hget, hclaimable, rfl, hp, -⟩ := claims_eq hstep ht
    obtain ⟨hsession, hid, -⟩ := stored_eq_ok hp
    have hkey : r.id = id := (Table.get_eq_some.mp hget).2
    obtain ⟨u, hu, hok, ps, now, hevent, q, hq, hqsession, hqid⟩ := rowsObserved hbefore id r hget
    have hsame := hinj (hqid.trans (hid.trans hkey).symm)
    simp only [Prod.mk.injEq, true_and] at hsame
    obtain ⟨hsessions, hids, hnative⟩ := hsame
    refine ⟨hid.trans hkey, ?_, u, hu, hok, ps, now, q, ?_, hq, hsessions, hids, hnative⟩
    · rw [hsession]
      exact (claimable_eq_true hclaimable).2.2
    · rw [hsession]
      exact hevent
  granted := by
    rintro ⟨s, c, s', o⟩ ht files id grant now i p rfl rfl
    have hcall : s.call digest reread (.claimWorktree files id grant now) =
        (s', .ok (some (i, p))) := (hr.of_mem _ ht).2
    unfold Permissions.call at hcall
    split at hcall
    case h_2 => cases (Prod.mk.inj hcall).2
    rename_i t answer hexec
    obtain ⟨-, ha⟩ := Prod.mk.inj hcall
    obtain rfl := Except.ok.inj ha
    exact claimWorktree_owned hexec

end

/-- A request for the directory of a task. -/
def outside : Json :=
  .obj [("id", .str "per_1"), ("sessionID", .str "ses_1"), ("permission", .str "external_directory"),
    ("patterns", .arr [.str "/w/*"]), ("always", .arr []), ("metadata", .obj [])]

/-- An agent in its session, on the work of a running task. -/
def working : Permissions (String × String × String × Json) where
  base := { Runtime.Store.empty with
    instances := Table.empty.put ⟨"open", .opencode, "opencode", [], "/repo", some "ses_1", .running,
      true, none, false, "push"⟩ }
  owned :=
    { tasks := Table.empty.put ⟨{ Engine.Task.new "t" "title" "team" "code" 1 with
        assignee := some "open"
        status := .running
        requiresRepo := true }, 7, some ⟨⟨some
          (Pipeline.deliver (.new "t" .builtinCode) .start).snapshot, none⟩, none, false⟩⟩
      bindings := Table.empty.put ⟨"open", "t", .work, "/w", none, none, "t/work/1", .ready⟩
      workflows := [(("code", 1), .ok .builtinCode)] }
  rows := Table.empty

/-- The request is observed and answered without the operator, who comes too late. -/
theorem permission_answered_once_granted :
    let id := ("open", "ses_1", "per_1", outside)
    let played := Machine.play (fun s c => some (s.call (fun x => x) .ok c)) [] working
      [.observe "open" "ses_1" [⟨"per_1", "ses_1", "external_directory", ["/w/*"], outside⟩] 5,
        .claimWorktree ⟨fun d => d = "/w", some⟩ id ⟨"t", 7, "t/work/1", "/w"⟩ 6,
        .claim id true 7]
    (played.1.map fun t => t.output.toOption.map fun a => a.map Prod.fst) =
        [some none, some (some "open"), some none] ∧
      AnsweredOnce (fun x => x) played.1 := by
  intro id played
  refine ⟨by decide +kernel, permission_answered_once (fun x => x) .ok (fun _ _ he => he)
    ((Machine.Run.start (M := permissions (fun x => x) .ok) (s := working) rfl).play ?_)⟩
  exact fun s c s' o hn => Option.some.inj hn

end Agend.OpenCode
