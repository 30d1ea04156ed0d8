import Mathlib.Data.Bool.AllAny
import Agend.Setup.Runs

/-! When a definition runs exactly the program it was made for. -/
namespace Agend.Setup

open Library

/-- What stands in a unit between two ends of lines. -/
def Inline (text : Text) : Prop := ∀ c ∈ text, c ≠ '\n' ∧ c ≠ '\r'

theorem PlainText.inline {text : Text} (h : PlainText text) : Inline text := by
  intro c hc
  have hcontrol := (h c hc).1
  constructor <;> intro heq <;> rw [heq] at hcontrol <;> exact absurd hcontrol (by decide)

theorem inline_replace {c : Char} {by' text : Text} (hby : Inline by') (h : Inline text) :
    Inline (replace c by' text) := by
  intro d hd
  obtain ⟨e, he, hmem⟩ := List.mem_flatMap.mp hd
  by_cases heq : e = c
  · rw [if_pos heq] at hmem
    exact hby d hmem
  · rw [if_neg heq, List.mem_singleton] at hmem
    exact hmem ▸ h e he

theorem inline_unit {text : Text} (h : Inline text) : Inline (unit text) := by
  have hbody : Inline (replace '%' ['%', '%'] (replace '"' ['\\', '"']
      (replace '\\' ['\\', '\\'] text))) := by
    apply inline_replace (List.all_iff_forall_prop.mp (by decide))
    apply inline_replace (List.all_iff_forall_prop.mp (by decide))
    exact inline_replace (List.all_iff_forall_prop.mp (by decide)) h
  intro c hc
  rcases List.mem_cons.mp hc with hopen | hrest
  · rw [hopen]
    decide
  · rcases List.mem_append.mp hrest with hin | hclose
    · exact hbody c hin
    · rw [List.mem_singleton.mp hclose]
      decide

/-- The directives of the unit. -/
def systemdDirectives (spec : ServiceSpec) : List UnitFile.Directive :=
  [⟨"Unit".toList, "Description".toList, "AgEnD agent daemon".toList⟩,
    ⟨"Service".toList, "Type".toList, "exec".toList⟩,
    ⟨"Service".toList, "ExecStart".toList,
      List.flatten [":/usr/bin/env -- ".toList, unit spec.program, " daemon".toList]⟩,
    ⟨"Service".toList, "WorkingDirectory".toList, List.flatten [doubled spec.home, ['/']]⟩,
    ⟨"Service".toList, "Environment".toList, unit ("AGEND_HOME=".toList ++ spec.home)⟩,
    ⟨"Service".toList, "Environment".toList, unit ("HOME=".toList ++ spec.userHome)⟩,
    ⟨"Service".toList, "Environment".toList, unit ("PATH=".toList ++ spec.searchPath)⟩,
    ⟨"Service".toList, "UnsetEnvironment".toList, "AGEND_INSTANCE".toList⟩,
    ⟨"Service".toList, "Restart".toList, "always".toList⟩,
    ⟨"Service".toList, "RestartSec".toList, ['5']⟩,
    ⟨"Service".toList, "KillMode".toList, "process".toList⟩,
    ⟨"Service".toList, "TimeoutStopSec".toList, ['2', '0']⟩,
    ⟨"Service".toList, "UMask".toList, "0077".toList⟩,
    ⟨"Install".toList, "WantedBy".toList, "default.target".toList⟩]

theorem getLast_unit (value : Text) : (unit value).getLast? = some '"' := by
  rw [unit, ← List.cons_append, List.getLast?_append]
  rfl

/-- An environment line is read as the quoted word on it. -/
theorem foldl_environment {value : Text} (h : PlainText value) (name : Text)
    (hname : Inline name) (directives : List UnitFile.Directive) (rest : List Text) :
    ("Environment=".toList :: unit (name ++ value) :: "\n".toList :: rest).foldl UnitFile.run
        (some ⟨"Service".toList, directives, []⟩) =
      rest.foldl UnitFile.run (some ⟨"Service".toList,
        ⟨"Service".toList, "Environment".toList, unit (name ++ value)⟩ :: directives, []⟩) := by
  have hinline : Inline (name ++ value) := by
    intro c hc
    rcases List.mem_append.mp hc with hin | hin
    · exact hname c hin
    · exact h.inline c hin
  have hline : (("Environment=".toList) :: ([unit (name ++ value)] ++ "\n".toList :: rest)).foldl
        UnitFile.run (some ⟨"Service".toList, directives, []⟩) =
      rest.foldl UnitFile.run (some ⟨"Service".toList, ⟨"Service".toList, "Environment".toList,
        [unit (name ++ value)].flatten⟩ :: directives, []⟩) := by
    apply UnitFile.foldl_assignment 'E' "nvironment".toList [unit (name ++ value)]
      (List.all_iff_forall_prop.mp (by decide))
    · rw [List.flatten_singleton]
      exact inline_unit hinline
    · intro d hd
      rw [List.flatten_singleton] at hd
      cases hd
      rfl
    · intro d hd
      rw [List.flatten_singleton, getLast_unit] at hd
      cases hd
      decide
  rw [List.flatten_singleton] at hline
  exact hline

theorem foldl_exec {program : Text} (h : PlainText program)
    (directives : List UnitFile.Directive) (rest : List Text) :
    ("ExecStart=".toList :: ":/usr/bin/env -- ".toList :: unit program :: " daemon".toList ::
        "\n".toList :: rest).foldl UnitFile.run (some ⟨"Service".toList, directives, []⟩) =
      rest.foldl UnitFile.run (some ⟨"Service".toList, ⟨"Service".toList, "ExecStart".toList,
        List.flatten [":/usr/bin/env -- ".toList, unit program, " daemon".toList]⟩ :: directives,
        []⟩) := by
  have hinline : Inline (List.flatten [":/usr/bin/env -- ".toList, unit program,
      " daemon".toList]) := by
    intro c hc
    obtain ⟨piece, hpiece, hmem⟩ := List.mem_flatten.mp hc
    simp only [List.mem_cons, List.not_mem_nil, or_false] at hpiece
    rcases hpiece with heq | heq | heq <;> rw [heq] at hmem
    · exact (show Inline ":/usr/bin/env -- ".toList from List.all_iff_forall_prop.mp (by decide)) c hmem
    · exact inline_unit h.inline c hmem
    · exact (show Inline " daemon".toList from List.all_iff_forall_prop.mp (by decide)) c hmem
  apply UnitFile.foldl_assignment 'E' "xecStart".toList
    [":/usr/bin/env -- ".toList, unit program, " daemon".toList]
    (List.all_iff_forall_prop.mp (by decide)) hinline
  · intro d hd
    cases hd
    rfl
  · intro d hd
    have hlast : (List.flatten [":/usr/bin/env -- ".toList, unit program,
        " daemon".toList]).getLast? = some 'n' := by
      rw [List.flatten_cons, List.flatten_cons, List.getLast?_append, List.getLast?_append]
      rfl
    rw [hlast] at hd
    cases hd
    decide

/-- The slash after a directory is the last character of its line. -/
theorem foldl_directory {home : Text} (h : PlainText home) (habsolute : home.head? = some '/')
    (directives : List UnitFile.Directive) (rest : List Text) :
    ("WorkingDirectory=".toList :: replace '%' ['%', '%'] home :: "/".toList :: "\n".toList ::
        rest).foldl UnitFile.run (some ⟨"Service".toList, directives, []⟩) =
      rest.foldl UnitFile.run (some ⟨"Service".toList, ⟨"Service".toList,
        "WorkingDirectory".toList, List.flatten [doubled home, ['/']]⟩ :: directives, []⟩) := by
  have hinline : Inline (List.flatten [doubled home, ['/']]) := by
    intro c hc
    rw [List.flatten_cons, List.flatten_singleton] at hc
    rcases List.mem_append.mp hc with hin | hslash
    · exact inline_replace (List.all_iff_forall_prop.mp (by decide)) h.inline c hin
    · rw [List.mem_singleton.mp hslash]
      decide
  apply UnitFile.foldl_assignment 'W' "orkingDirectory".toList [doubled home, "/".toList]
    (List.all_iff_forall_prop.mp (by decide)) hinline
  · intro d hd
    cases home with
    | nil => cases habsolute
    | cons c home =>
      cases habsolute
      cases hd
      rfl
  · intro d hd
    have hlast : (List.flatten [doubled home, "/".toList]).getLast? = some '/' := by
      rw [List.flatten_cons, List.getLast?_append]
      rfl
    rw [hlast] at hd
    cases hd
    decide

/-- The lines that no value of the service stands on. -/
theorem foldl_literals (directives : List UnitFile.Directive) :
    List.foldl UnitFile.run (some ⟨"Service".toList, directives, []⟩)
      ["UnsetEnvironment=AGEND_INSTANCE\n".toList,
        "Restart=always\nRestartSec=5\nKillMode=process\nTimeoutStopSec=20\nUMask=0077\n\n".toList,
        "[Install]\nWantedBy=default.target\n".toList] =
      some ⟨"Install".toList, ⟨"Install".toList, "WantedBy".toList, "default.target".toList⟩ ::
        ⟨"Service".toList, "UMask".toList, "0077".toList⟩ ::
        ⟨"Service".toList, "TimeoutStopSec".toList, "20".toList⟩ ::
        ⟨"Service".toList, "KillMode".toList, "process".toList⟩ ::
        ⟨"Service".toList, "RestartSec".toList, "5".toList⟩ ::
        ⟨"Service".toList, "Restart".toList, "always".toList⟩ ::
        ⟨"Service".toList, "UnsetEnvironment".toList, "AGEND_INSTANCE".toList⟩ :: directives, []⟩ := by
  repeat rewrite [String.toList_ofList]
  rfl

theorem systemd_read {spec : ServiceSpec} (hprogram : PlainText spec.program)
    (hhome : PlainText spec.home) (huser : PlainText spec.userHome)
    (hpath : PlainText spec.searchPath) (habsolute : spec.home.head? = some '/') :
    UnitFile.read spec.systemd = some (systemdDirectives spec) := by
  have hhead : UnitFile.run (UnitFile.run (some UnitFile.start)
      "[Unit]\nDescription=AgEnD agent daemon\n\n".toList) "[Service]\nType=exec\n".toList =
      some ⟨"Service".toList, [⟨"Service".toList, "Type".toList, "exec".toList⟩,
        ⟨"Unit".toList, "Description".toList, "AgEnD agent daemon".toList⟩], []⟩ := by
    repeat rewrite [String.toList_ofList]
    rfl
  have hrun : UnitFile.run (some UnitFile.start) spec.systemd =
      some ⟨"Install".toList, (systemdDirectives spec).reverse, []⟩ := by
    unfold ServiceSpec.systemd
    rewrite [UnitFile.run_flatten, List.foldl_cons, List.foldl_cons, hhead,
      foldl_exec hprogram, foldl_directory hhome habsolute,
      foldl_environment hhome "AGEND_HOME=".toList (List.all_iff_forall_prop.mp (by decide)),
      foldl_environment huser "HOME=".toList (List.all_iff_forall_prop.mp (by decide)),
      foldl_environment hpath "PATH=".toList (List.all_iff_forall_prop.mp (by decide))]
    rewrite [foldl_literals]
    rfl
  rw [UnitFile.read, hrun]
  change some (systemdDirectives spec).reverse.reverse = _
  rw [List.reverse_reverse]

/-! What the unit runs. -/

theorem specifiers_whole (text : Text) : UnitFile.specifiers (doubled text) = some text := by
  have h := specifiers_doubled text []
  rw [List.append_nil] at h
  rw [h, UnitFile.specifiers, Option.map_some, List.append_nil]

/-- The command is env(1) with the program and its argument, whatever the program is. -/
theorem command_exec (program : Text) :
    UnitFile.command (List.flatten [":/usr/bin/env -- ".toList, unit program, " daemon".toList]) =
      some ["/usr/bin/env".toList, "--".toList, program, "daemon".toList] := by
  have hwords : UnitFile.words (List.flatten [":/usr/bin/env -- ".toList, unit program,
      " daemon".toList]) = some [⟨":/usr/bin/env".toList, false⟩, ⟨"--".toList, false⟩,
        ⟨doubled program, true⟩, ⟨"daemon".toList, false⟩] := by
    have hsplit : UnitFile.runSplit (some ⟨[], .between⟩) (List.flatten [":/usr/bin/env -- ".toList,
        unit program, " daemon".toList]) = some ⟨[⟨(doubled program).reverse.reverse, true⟩,
          ⟨"--".toList, false⟩, ⟨":/usr/bin/env".toList, false⟩], .bare "nomead".toList⟩ := by
      rw [List.flatten_cons, List.flatten_cons, List.flatten_singleton,
        UnitFile.runSplit_append, UnitFile.runSplit_append]
      change UnitFile.runSplit (UnitFile.runSplit (some ⟨[⟨"--".toList, false⟩,
        ⟨":/usr/bin/env".toList, false⟩], .between⟩) (unit program)) " daemon".toList = _
      rw [runSplit_unit]
      rfl
    rw [UnitFile.words, hsplit, List.reverse_reverse]
    rfl
  have hexpand : [UnitFile.Word.mk "/usr/bin/env".toList false, ⟨"--".toList, false⟩,
      ⟨doubled program, true⟩, ⟨"daemon".toList, false⟩].mapM
        (fun word => UnitFile.specifiers word.text) =
      some ["/usr/bin/env".toList, "--".toList, program, "daemon".toList] := by
    simp only [List.mapM_cons, List.mapM_nil, specifiers_whole]
    rfl
  rw [UnitFile.command, hwords]
  exact hexpand

/-- A part of the path goes up. -/
abbrev GoesUp (path : Text) : Prop := ['.', '.'] ∈ path.splitOn '/'

theorem goesUp_slash (home : Text) : GoesUp (home ++ ['/']) ↔ GoesUp home := by
  unfold GoesUp
  rw [List.splitOn_append_cons_self, List.mem_append]
  exact or_iff_left (by decide)

theorem directory_home {home : Text} (h : home.head? = some '/') :
    UnitFile.directory (List.flatten [doubled home, ['/']]) =
      if GoesUp home then none else some (home ++ ['/']) := by
  have hspecifiers : UnitFile.specifiers (doubled home ++ ['/']) = some (home ++ ['/']) :=
    specifiers_doubled home ['/']
  have hfirst : (home ++ ['/']).head? = some '/' := by
    rw [List.head?_append, h, Option.some_or]
  rw [List.flatten_cons, List.flatten_singleton, UnitFile.directory, hspecifiers, Option.bind_some]
  by_cases hup : GoesUp home
  · rw [if_pos hup, if_neg fun hplain => hplain.2 _ ((goesUp_slash home).mpr hup) rfl]
  · have hplain : ∀ part ∈ (home ++ ['/']).splitOn '/', part ≠ ['.', '.'] := by
      rintro part hpart rfl
      exact hup ((goesUp_slash home).mp hpart)
    rw [if_neg hup, if_pos ⟨hfirst, hplain⟩]

/-- Only a program without an equals sign is what env(1) runs. -/
theorem env_program (program : Text) :
    UnitFile.env ["--".toList, program, "daemon".toList] =
      if '=' ∈ program then
        (UnitFile.assignment program).map fun assigned => ([assigned], ["daemon".toList])
      else some ([], [program, "daemon".toList]) := by
  by_cases h : '=' ∈ program
  · rw [if_pos h]
    have hdrop : [program, "daemon".toList].dropWhile ('=' ∈ ·) = ["daemon".toList] := by
      rw [List.dropWhile_cons, if_pos (by simpa using h)]
      rfl
    have htake : [program, "daemon".toList].takeWhile ('=' ∈ ·) = [program] := by
      rw [List.takeWhile_cons, if_pos (by simpa using h)]
      rfl
    refine (UnitFile.env_of_dropWhile hdrop).trans ?_
    rw [htake]
    cases hassigned : UnitFile.assignment program <;> simp [hassigned]
  · rw [if_neg h]
    have hdrop : [program, "daemon".toList].dropWhile ('=' ∈ ·) = [program, "daemon".toList] := by
      rw [List.dropWhile_cons, if_neg (by simpa using h)]
    have htake : [program, "daemon".toList].takeWhile ('=' ∈ ·) = [] := by
      rw [List.takeWhile_cons, if_neg (by simpa using h)]
    refine (UnitFile.env_of_dropWhile hdrop).trans ?_
    rw [htake]
    rfl

def settings (spec : ServiceSpec) : List (Text × Text) :=
  [("AGEND_HOME".toList, spec.home), ("HOME".toList, spec.userHome),
    ("PATH".toList, spec.searchPath)]

theorem mapM_environment (spec : ServiceSpec) :
    (valuesOf (systemdDirectives spec) "Environment".toList).mapM UnitFile.environment =
      some ((settings spec).map ([·])) := by
  have hvalues : valuesOf (systemdDirectives spec) "Environment".toList =
      [unit ("AGEND_HOME".toList ++ '=' :: spec.home), unit ("HOME".toList ++ '=' :: spec.userHome),
        unit ("PATH".toList ++ '=' :: spec.searchPath)] := rfl
  rw [hvalues, List.mapM_cons, List.mapM_cons, List.mapM_cons,
    environment_unit _ _ (by decide), environment_unit _ _ (by decide),
    environment_unit _ _ (by decide)]
  rfl

/-- No variable of the service is one that is unset. -/
theorem kept_settings (spec : ServiceSpec) (unset : List (List UnitFile.Word))
    (h : unset = [[⟨"AGEND_INSTANCE".toList, false⟩]]) :
    (((settings spec).map ([·])).flatten.filter fun (name, _) =>
      unset.flatten.all (·.text ≠ name)) = settings spec := by
  subst h
  rfl

theorem systemdService_systemd {spec : ServiceSpec} (habsolute : spec.home.head? = some '/') :
    systemdService (systemdDirectives spec) =
      if GoesUp spec.home then none else
        (UnitFile.env ["--".toList, spec.program, "daemon".toList]).bind fun ran =>
          match ran with
          | (assigned, program :: arguments) =>
            some ⟨program, arguments, spec.home ++ ['/'], settings spec ++ assigned⟩
          | _ => none := by
  have hexec : valuesOf (systemdDirectives spec) "ExecStart".toList =
      [List.flatten [":/usr/bin/env -- ".toList, unit spec.program, " daemon".toList]] := rfl
  have hdirectory : valuesOf (systemdDirectives spec) "WorkingDirectory".toList =
      [List.flatten [doubled spec.home, ['/']]] := rfl
  have hunset : (valuesOf (systemdDirectives spec) "UnsetEnvironment".toList).mapM
      UnitFile.words = some [[⟨"AGEND_INSTANCE".toList, false⟩]] := rfl
  rw [systemdService, hexec, hdirectory]
  by_cases hup : GoesUp spec.home
  · simp only [directory_home habsolute, if_pos hup, Option.bind_eq_bind, Option.bind_none]
  simp only [directory_home habsolute, if_neg hup, mapM_environment, hunset, command_exec,
    Option.bind_eq_bind, Option.bind_some, if_true]
  rw [kept_settings spec _ rfl]
  cases hran : UnitFile.env ["--".toList, spec.program, "daemon".toList] with
  | none => rfl
  | some ran =>
    cases ran with
    | mk assigned program => cases program <;> rfl

/-- A slash at the end of a path adds no part to it. -/
theorem sameDirectory_slash (home : Text) : SameDirectory (home ++ ['/']) home := by
  unfold SameDirectory
  rw [List.splitOn_append_cons_self, List.filter_append]
  exact List.append_nil _

theorem render_ok {spec : ServiceSpec} {text : Text} (h : spec.render = .ok text) :
    PlainText spec.program ∧ PlainText spec.home ∧ PlainText spec.userHome ∧
      PlainText spec.searchPath ∧ spec.home.head? = some '/' ∧
      text = match spec.manager with
        | .launchd => spec.launchd
        | .systemd => spec.systemd := by
  unfold ServiceSpec.render at h
  split_ifs at h with hpaths hsearch
  simp only [List.any_cons, List.any_nil, Bool.or_false, Bool.or_eq_true, Bool.not_eq_true',
    not_or, Bool.not_eq_false] at hpaths
  obtain ⟨hprogram, hhome, huser⟩ := hpaths
  have hpath : PlainText spec.searchPath := by
    apply plainText_of_splitOn
    intro path hmem
    rw [List.any_eq_true, not_exists] at hsearch
    have hfound := hsearch path
    simpa [hmem] using hfound
  have hfirst : spec.home.head? = some '/' := by
    rw [absolute, Bool.and_eq_true, decide_eq_true_eq] at hhome
    exact hhome.1
  have htext : text = match spec.manager with
      | .launchd => spec.launchd
      | .systemd => spec.systemd := by
    cases hmanager : spec.manager <;> rw [hmanager] at h <;> exact (Except.ok.inj h).symm
  exact ⟨plainText_of_absolute hprogram, plainText_of_absolute hhome, plainText_of_absolute huser,
    hpath, hfirst, htext⟩

theorem faithful_launchd {spec : ServiceSpec} (hmanager : spec.manager = .launchd)
    (hprogram : PlainText spec.program) (hhome : PlainText spec.home)
    (huser : PlainText spec.userHome) (hpath : PlainText spec.searchPath) :
    Faithful spec spec.launchd := by
  unfold Faithful
  rw [hmanager]
  have hservice : launchdService (launchdEntries spec) =
      some ⟨spec.program, ["daemon".toList], spec.home, settings spec⟩ := rfl
  exact ⟨launchdEntries spec, _, launchd_read hprogram hhome huser hpath, rfl, hservice,
    ⟨rfl, rfl, rfl, rfl⟩⟩

theorem faithful_systemd {spec : ServiceSpec} (hmanager : spec.manager = .systemd)
    (hprogram : PlainText spec.program) (hhome : PlainText spec.home)
    (huser : PlainText spec.userHome) (hpath : PlainText spec.searchPath)
    (habsolute : spec.home.head? = some '/') :
    Faithful spec spec.systemd ↔ '=' ∉ spec.program ∧ ¬GoesUp spec.home := by
  have hread := systemd_read hprogram hhome huser hpath habsolute
  have hran := systemdService_systemd habsolute
  rw [env_program] at hran
  unfold Faithful
  rw [hmanager]
  constructor
  · rintro ⟨directives, service, hdirectives, _, hservice, hexact⟩
    rw [hread] at hdirectives
    cases hdirectives
    rw [hran] at hservice
    by_cases hup : GoesUp spec.home
    · rw [if_pos hup] at hservice
      cases hservice
    refine ⟨fun hequals => ?_, hup⟩
    -- the program is taken for an assignment, and its argument for the program
    rw [if_neg hup, if_pos hequals] at hservice
    cases hassigned : UnitFile.assignment spec.program with
    | none =>
      rw [hassigned] at hservice
      cases hservice
    | some assigned =>
      rw [hassigned] at hservice
      cases hservice
      cases hexact.arguments
  · rintro ⟨hequals, hup⟩
    rw [if_neg hup, if_neg hequals] at hran
    refine ⟨systemdDirectives spec, _, hread, rfl, hran, ⟨rfl, rfl, ?_, ?_⟩⟩
    · exact sameDirectory_slash spec.home
    · exact List.append_nil _

/-- A rendered definition runs exactly its program, unless env(1) takes the program of a unit for
an assignment or systemd refuses its home for a part that goes up. -/
theorem definition_exact (spec : ServiceSpec) (text : Text) (h : spec.render = .ok text) :
    Faithful spec text ↔
      ¬(spec.manager = .systemd ∧ ('=' ∈ spec.program ∨ GoesUp spec.home)) := by
  obtain ⟨hprogram, hhome, huser, hpath, habsolute, htext⟩ := render_ok h
  cases hmanager : spec.manager with
  | launchd =>
    rw [hmanager] at htext
    have hfaithful := faithful_launchd hmanager hprogram hhome huser hpath
    constructor
    · intro _ hsystemd
      cases hsystemd.1
    · intro _
      exact htext ▸ hfaithful
  | systemd =>
    rw [hmanager] at htext
    have hfaithful := faithful_systemd hmanager hprogram hhome huser hpath habsolute
    rw [htext, hfaithful]
    simp

/-- A home with a space, a percent sign and a dollar sign. -/
def spaced : ServiceSpec :=
  ⟨.systemd, "/opt/agend".toList, "/h 1%$".toList, "/u".toList, "/bin:/b\"".toList⟩

theorem definition_exact_spaced : Faithful spaced spaced.systemd :=
  (definition_exact spaced spaced.systemd rfl).mpr (by unfold spaced; decide)

/-- A program in a directory whose name has an equals sign. -/
def versioned : ServiceSpec :=
  ⟨.systemd, "/opt/v=1/agend".toList, "/h".toList, "/u".toList, "/bin".toList⟩

/-- A home that is written with a part that goes up. -/
def goingUp : ServiceSpec :=
  ⟨.systemd, "/opt/agend".toList, "/home/u/../v".toList, "/u".toList, "/bin".toList⟩

theorem versioned_not_run :
    (versioned.render = .ok versioned.systemd ∧ ¬Faithful versioned versioned.systemd) ∧
      goingUp.render = .ok goingUp.systemd ∧ ¬Faithful goingUp goingUp.systemd := by
  have hversioned : versioned.render = .ok versioned.systemd := rfl
  have hgoing : goingUp.render = .ok goingUp.systemd := rfl
  refine ⟨⟨hversioned, ?_⟩, hgoing, ?_⟩
  · obtain ⟨hprogram, hhome, huser, hpath, habsolute, _⟩ := render_ok hversioned
    rw [faithful_systemd rfl hprogram hhome huser hpath habsolute]
    unfold versioned
    decide
  · obtain ⟨hprogram, hhome, huser, hpath, habsolute, _⟩ := render_ok hgoing
    rw [faithful_systemd rfl hprogram hhome huser hpath habsolute]
    unfold goingUp
    decide

end Agend.Setup
