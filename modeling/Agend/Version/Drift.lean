import Agend.Version.Checks

/-! An acknowledgement of version drift covers exactly what was shown, of the registry and of the
programs of the instances. -/
namespace Agend.Version

open Library
open Library.Checking (Tracked Calls Fresh)
open Agend.Runtime (Backend)

abbrev RegistryCheck := Check Backend Unit Unit PublishedBackend (Backend × Nat)

abbrev SystemVersionCheck := Check String String Scope SystemBackendVersion SystemVersionObservation

/-- A call on the registry's rows; backends do not come and go. -/
def RegistryCheck.own : RegistryCheck → Bool
  | .rescope _ _ => false
  | .begin_ _ _ drawn => drawn.isOk
  | .finish _ _ _ => true
  | .acknowledge _ _ _ => true

/-- The registry check, by its source's calls. -/
def Registry.exec (s : Registry) :
    RegistryCheck → Except String (Registry × Checked Backend Unit Unit PublishedBackend)
  | .rescope _ _ => .ok (s, .rescoped)
  | .begin_ backend now _ =>
    (Registry.beginRegistryCheck s backend now).map fun x => (x.1, .begun x.2)
  | .finish (backend, attempt) now result =>
    (Registry.finishRegistryCheck s backend attempt now result).map fun x => (x.1, .done x.2)
  | .acknowledge backend _ revision =>
    (Registry.acknowledgeRegistryObservation s backend revision).map fun x => (x.1, .done x.2)

/-- The check of the instances' programs; instances are changed, removed and made again. -/
def SystemVersions.exec (s : SystemVersions) : SystemVersionCheck →
    Except String (SystemVersions × Checked String String Scope SystemBackendVersion)
  | .rescope id scope => .ok (Checking.rescope s id scope, .rescoped)
  | .begin_ id now newSessionId =>
    (SystemVersions.beginSystemVersionCheck s id now newSessionId).map fun x => (x.1, .begun x.2)
  | .finish ticket now result =>
    (SystemVersions.finishSystemVersionCheck s ticket now result).map fun x => (x.1, .done x.2)
  | .acknowledge id generation revision =>
    (SystemVersions.acknowledgeSystemVersion s id generation revision).map fun x =>
      (x.1, .done x.2)

/-- Any calls in any order, with any clock; a restart changes nothing of this. -/
def registryChecks : Machine Registry RegistryCheck
    (Except String (Checked Backend Unit Unit PublishedBackend)) where
  init s := s.rows.rows = [] ∧ s.scope = fun _ => some ()
  step s c s' o := RegistryCheck.own c = true ∧ settle s (Registry.exec s c) = (s', o)

def systemVersions : Machine SystemVersions SystemVersionCheck
    (Except String (Checked String String Scope SystemBackendVersion)) where
  init s := s.rows.rows = []
  step s c s' o := settle s (SystemVersions.exec s c) = (s', o)

theorem registry_run {h : Calls Backend Unit Unit PublishedBackend (Backend × Nat)} {s : Registry}
    (hr : registryChecks.Run h s) : (registry.machine (fun f => f = fun _ => some ())
      fun c => RegistryCheck.own c = true).Run h s := by
  induction hr with
  | start hs => exact .start hs
  | @snoc h s s' c o hr hs ih =>
    refine ih.snoc ⟨hs.1, ?_⟩
    obtain ⟨hown, hcall⟩ := hs
    cases c with
    | rescope key scope => cases hown
    | begin_ backend now drawn =>
      cases drawn with
      | error e => cases hown
      | ok u => exact hcall
    | finish ticket now result => exact hcall
    | acknowledge backend generation revision => exact hcall

theorem system_run {h : Calls String String Scope SystemBackendVersion SystemVersionObservation}
    {s : SystemVersions} (hr : systemVersions.Run h s) :
    (systemVersion.machine (fun _ => True) fun _ => True).Run h s := by
  induction hr with
  | start hs => exact .start ⟨hs, trivial⟩
  | @snoc h s s' c o hr hs ih =>
    refine ih.snoc ⟨trivial, ?_⟩
    cases c <;> exact hs

section

variable {h : Calls Backend Unit Unit PublishedBackend (Backend × Nat)} {s s' : Registry}
  {c : RegistryCheck} {o : Except String (Checked Backend Unit Unit PublishedBackend)}
  {backend : Backend}

abbrev registryMachine := registry.machine (fun f => f = fun _ => some ())
  fun c => RegistryCheck.own c = true

/-- A backend that has a row keeps one. -/
theorem registry_keep (hs : registryMachine.step s c s' o)
    (hsome : (s.rows.get backend).isSome = true) : (s'.rows.get backend).isSome = true := by
  have hm := Checking.step_move hs backend
  obtain ⟨r, hr⟩ := Option.isSome_iff_exists.mp hsome
  rw [hr] at hm
  generalize hy : s'.rows.get backend = y at hm
  cases hm with
  | dropped => cases hs.1
  | other => rfl
  | created => rfl
  | begun => rfl
  | finished => rfl
  | acknowledged => rfl

/-- A backend has one first attempt only, so that its generation does not come twice. -/
theorem registry_fresh (hr : registryMachine.Run h s) : Fresh h := by
  refine Machine.pairwise_of_split ?_
  rintro newer mid older u t rfl backend now g r he ho hfirst x hx -
  obtain ⟨hmid, hstep⟩ := hr.split
  have hsome : (u.before.rows.get backend).isSome = true :=
    hmid.since (D := fun s => (s.rows.get backend).isSome = true)
      (fun _ _ _ _ _ hs hD => registry_keep hs hD) (by rw [hx]; rfl)
  obtain ⟨r0, hr0⟩ := Option.isSome_iff_exists.mp hsome
  have hm := Checking.step_move hstep backend
  rw [he, ho, hr0] at hm
  generalize hy : u.after.rows.get backend = y at hm
  cases hm with
  | other hne => exact hne (.begun now (.ok g) r)
  | created hscope hold => exact hold r0 rfl rfl
  | begun hkey hscope hdue =>
    exact (Checking.sound hmid.reachable hr0).attempt (Nat.succ.inj hfirst)

end

/-- Both checks, when no two new rows of instances get the same generation. -/
theorem version_drift_acknowledged :
    (∀ h s, registryChecks.Run h s → Tracked registry h s) ∧
      ∀ h s, systemVersions.Run h s → (h.filterMap Checking.drawn).Nodup →
        Tracked systemVersion h s := by
  constructor
  · intro h s hr
    exact Checking.tracked (registry_run hr) (registry_fresh (registry_run hr))
  · intro h s hr hn
    exact Checking.tracked (system_run hr) (Checking.fresh_of_nodup (system_run hr) hn)

def release (version : String) : PublishedBackend := ⟨"codex", "@openai/codex", version⟩

/-- The program of an instance, for a check of it. -/
def probed (version : String) : SystemBackendVersion :=
  ⟨"codex", "codex", "/bin/codex", version, String.ofList (List.replicate 64 'a')⟩

/-- The recorded attempt of a new observation of the instance. -/
def ticket (attempt startedMs : Nat) : SystemVersionObservation :=
  ⟨"i", "g", ⟨"codex", "codex", "/r"⟩, attempt, startedMs, none, none, none, none, 0, 0⟩

def checkedRegistry : Calls Backend Unit Unit PublishedBackend (Backend × Nat) × Registry :=
  Machine.play (fun s c => if RegistryCheck.own c then some (settle s (Registry.exec s c)) else none)
    [] ⟨fun _ => some (), Table.empty⟩
    [.begin_ .codex 10 (.ok ()), .finish (.codex, 1) 11 (.ok (release "1.0.0")),
      .acknowledge .codex () 1, .begin_ .codex (10 + registryIntervalMs) (.ok ()),
      .finish (.codex, 1) (11 + registryIntervalMs) (.ok (release "2.0.0")),
      .finish (.codex, 2) (11 + registryIntervalMs) (.ok (release "2.0.0")),
      .acknowledge .codex () 1, .acknowledge .codex () 2]

/-- An instance whose first check fails and whose next one finds its program. -/
def checkedSystem : Calls String String Scope SystemBackendVersion SystemVersionObservation ×
    SystemVersions :=
  Machine.play (fun s c => some (settle s (SystemVersions.exec s c)))
    [] ⟨fun _ => none, Table.empty⟩
    [.rescope "i" (some ⟨"codex", "codex", "/r"⟩), .begin_ "i" 10 (.ok "g"),
      .finish (ticket 1 10) 11 (.error "down"), .acknowledge "i" "g" 1,
      .begin_ "i" 60010 (.ok "unused"), .finish (ticket 2 60010) 60011 (.ok (probed "2.0.0"))]

theorem run_checkedRegistry : registryChecks.Run checkedRegistry.1 checkedRegistry.2 := by
  refine (Machine.Run.start (M := registryChecks) (s := ⟨fun _ => some (), Table.empty⟩)
    ⟨rfl, rfl⟩).play fun s c s' o hn => ?_
  split_ifs at hn with hown
  exact ⟨hown, Option.some.inj hn⟩

theorem run_checkedSystem : systemVersions.Run checkedSystem.1 checkedSystem.2 :=
  (Machine.Run.start (M := systemVersions) (s := ⟨fun _ => none, Table.empty⟩) rfl).play
    fun _ _ _ _ hn => Option.some.inj hn

/-- The second release is acknowledged by its own revision only, and a failure of a system check
as well. -/
theorem version_drift_acknowledged_checked :
    (checkedRegistry.1.map fun t => match t.output with
      | .ok (.done b) => some b
      | _ => none) = [some true, some false, some true, some false, none, some true, some true,
        none] ∧
      (checkedSystem.1.map fun t => match t.output with
        | .ok (.done b) => some b
        | _ => none) = [some true, none, some true, some true, none, none] ∧
      Tracked registry checkedRegistry.1 checkedRegistry.2 ∧
      Tracked systemVersion checkedSystem.1 checkedSystem.2 :=
  ⟨by decide +kernel, by decide +kernel,
    version_drift_acknowledged.1 _ _ run_checkedRegistry,
    version_drift_acknowledged.2 _ _ run_checkedSystem (by decide +kernel)⟩

theorem checkedSystem_ne_nil : checkedSystem.1 ≠ [] :=
  List.isEmpty_eq_false_iff.mp (by decide +kernel)

/-- A first success raises the revision when a failure went before it. -/
theorem first_success_raises :
    ∃ h s, systemVersions.Run h s ∧ (h.filterMap Checking.drawn).Nodup ∧
      ∃ t older, h = t :: older ∧
        systemVersion.success "i" "g" t = some (probed "2.0.0") ∧
        older.findSome? (systemVersion.success "i" "g") = none ∧
        (t.before.rows.get "i").map (fun r => (r.generation, r.revision)) = some ("g", 1) ∧
        (t.after.rows.get "i").map (fun r => (r.generation, r.revision)) = some ("g", 2) :=
  ⟨checkedSystem.1, checkedSystem.2, run_checkedSystem, by decide +kernel,
    checkedSystem.1.head checkedSystem_ne_nil, checkedSystem.1.tail,
    (List.cons_head_tail checkedSystem_ne_nil).symm, by decide +kernel, by decide +kernel,
    by decide +kernel, by decide +kernel⟩

end Agend.Version
