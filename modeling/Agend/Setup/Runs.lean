import Mathlib.Tactic.SplitIfs
import Agend.Library.Plist
import Agend.Library.UnitFile
import Agend.Setup.Service

/-! What a service manager runs from a definition. -/
namespace Agend.Setup

open Library

/-- What the manager starts: `program` with `arguments` in `directory`. -/
structure Service where
  program : Text
  arguments : List Text
  directory : Text
  environment : List (Text × Text)

/-- The same directory, whatever slashes stand between its parts. -/
def SameDirectory (a b : Text) : Prop :=
  (a.splitOn '/').filter (· ≠ []) = (b.splitOn '/').filter (· ≠ [])

/-- Exactly the program with the one argument, and exactly the three variables. -/
structure Service.Exact (service : Service) (spec : ServiceSpec) : Prop where
  program : service.program = spec.program
  arguments : service.arguments = ["daemon".toList]
  directory : SameDirectory service.directory spec.home
  environment : service.environment =
    [("AGEND_HOME".toList, spec.home), ("HOME".toList, spec.userHome),
      ("PATH".toList, spec.searchPath)]

/-- The one value of a key. -/
def only (entries : List (Text × Plist.Value)) (key : Text) : Option Plist.Value :=
  match entries.filter fun entry => entry.1 = key with
  | [entry] => some entry.2
  | _ => none

def strings (values : List Plist.Value) : Option (List Text) :=
  values.mapM fun
    | .string text => some text
    | _ => none

/-- A job of launchd. -/
def launchdService (entries : List (Text × Plist.Value)) : Option Service :=
  match only entries "ProgramArguments".toList, only entries "WorkingDirectory".toList,
    only entries "EnvironmentVariables".toList with
  | some (.array arguments), some (.string directory), some (.dict settings) => do
    let words ← strings arguments
    let values ← strings (settings.map Prod.snd)
    match words with
    | [] => none
    | program :: arguments =>
      return ⟨program, arguments, directory, (settings.map Prod.fst).zip values⟩
  | _, _, _ => none

def valuesOf (directives : List UnitFile.Directive) (key : Text) : List Text :=
  (directives.filter fun d => d.section = "Service".toList ∧ d.key = key).map (·.value)

/-- A unit of systemd whose command is env(1). Variables that are set, then those that are unset,
then the assignments of the command. -/
def systemdService (directives : List UnitFile.Directive) : Option Service :=
  match valuesOf directives "ExecStart".toList, valuesOf directives "WorkingDirectory".toList with
  | [exec], [directory] => do
    let directory ← UnitFile.directory directory
    let set ← (valuesOf directives "Environment".toList).mapM UnitFile.environment
    let unset ← (valuesOf directives "UnsetEnvironment".toList).mapM UnitFile.words
    let kept := set.flatten.filter fun (name, _) => unset.flatten.all (·.text ≠ name)
    match ← UnitFile.command exec with
    | program :: operands =>
      if program = "/usr/bin/env".toList then
        match ← UnitFile.env operands with
        | (assigned, program :: arguments) =>
          return ⟨program, arguments, directory, kept ++ assigned⟩
        | _ => none
      else none
    | [] => none
  | _, _ => none

def launchdKeys : List Text :=
  ["Label".toList, "ProgramArguments".toList, "WorkingDirectory".toList,
    "EnvironmentVariables".toList, "RunAtLoad".toList, "KeepAlive".toList,
    "AbandonProcessGroup".toList, "ThrottleInterval".toList, "Umask".toList,
    "StandardOutPath".toList, "StandardErrorPath".toList]

def systemdKeys : List (Text × Text) :=
  [("Unit".toList, "Description".toList), ("Service".toList, "Type".toList),
    ("Service".toList, "ExecStart".toList), ("Service".toList, "WorkingDirectory".toList),
    ("Service".toList, "Environment".toList), ("Service".toList, "Environment".toList),
    ("Service".toList, "Environment".toList), ("Service".toList, "UnsetEnvironment".toList),
    ("Service".toList, "Restart".toList), ("Service".toList, "RestartSec".toList),
    ("Service".toList, "KillMode".toList), ("Service".toList, "TimeoutStopSec".toList),
    ("Service".toList, "UMask".toList), ("Install".toList, "WantedBy".toList)]

/-- The definition is read as these keys and no others, and as one service. -/
def Faithful (spec : ServiceSpec) (text : Text) : Prop :=
  match spec.manager with
  | .launchd => ∃ entries service, Plist.read text = some (.dict entries) ∧
      entries.map Prod.fst = launchdKeys ∧ launchdService entries = some service ∧
      service.Exact spec
  | .systemd => ∃ directives service, UnitFile.read text = some directives ∧
      directives.map (fun d => (d.section, d.key)) = systemdKeys ∧
      systemdService directives = some service ∧ service.Exact spec

/-- No character of a path is one that a reader takes for more than itself. -/
def PlainText (text : Text) : Prop :=
  ∀ c ∈ text, isControl c = false ∧ c.toNat ≠ 0xFFFE ∧ c.toNat ≠ 0xFFFF

theorem plainText_of_absolute {text : Text} (h : absolute text = true) : PlainText text := by
  intro c hc
  rw [absolute, Bool.and_eq_true, Bool.not_eq_true', List.any_eq_false] at h
  have hplain := h.2 c hc
  simp only [Bool.or_eq_true, decide_eq_true_eq, not_or, Bool.not_eq_true] at hplain
  exact ⟨hplain.1.1, hplain.1.2, hplain.2⟩

theorem mem_intersperse {α : Type} {sep a : α} {l : List α} (h : a ∈ l.intersperse sep) :
    a = sep ∨ a ∈ l := by
  induction l with
  | nil => exact .inr h
  | cons b rest ih =>
    cases rest with
    | nil => exact .inr h
    | cons d rest =>
      rw [List.intersperse_cons_cons, List.mem_cons, List.mem_cons] at h
      rcases h with hfirst | hsep | hrest
      · exact .inr (hfirst ▸ List.mem_cons_self ..)
      · exact .inl hsep
      · exact (ih hrest).imp id (List.mem_cons_of_mem b)

/-- The directories of a search path and the colons between them are all of it. -/
theorem plainText_of_splitOn {text : Text} (h : ∀ path ∈ text.splitOn ':', absolute path = true) :
    PlainText text := by
  intro c hc
  have htext : [':'].intercalate (text.splitOn ':') = text := List.intercalate_splitOn ':'
  rw [← htext] at hc
  obtain ⟨part, hpart, hmem⟩ := List.mem_flatten.mp hc
  rcases mem_intersperse hpart with hcolon | hpath
  · rw [hcolon, List.mem_singleton] at hmem
    rw [hmem]
    decide
  · exact plainText_of_absolute (h part hpath) c hmem

/-! The property list. -/

theorem xmlChar_of_plain {c : Char}
    (h : isControl c = false ∧ c.toNat ≠ 0xFFFE ∧ c.toNat ≠ 0xFFFF) : Plist.xmlChar c = true := by
  obtain ⟨hcontrol, hfffe, hffff⟩ := h
  rw [isControl, Bool.or_eq_false_iff, decide_eq_false_iff_not] at hcontrol
  have hlow : 0x20 ≤ c.toNat := by omega
  simp [Plist.xmlChar, hlow, hfffe, hffff]

/-- The five replacements at once. -/
def xmlWrite (c : Char) : Text :=
  if c = '&' then "&amp;".toList
  else if c = '<' then "&lt;".toList
  else if c = '>' then "&gt;".toList
  else if c = '"' then "&quot;".toList
  else if c = '\'' then "&apos;".toList
  else [c]

/-- Replacing one after the other what the replacements before have written. -/
theorem replace_flatMap (c : Char) (by' : Text) (write : Char → Text) (value : Text) :
    replace c by' (value.flatMap write) = value.flatMap fun d => replace c by' (write d) := by
  rw [replace, List.flatMap_assoc]
  rfl

theorem replace_singleton {c d : Char} (h : d ≠ c) (by' : Text) : replace c by' [d] = [d] := by
  rw [replace, List.flatMap_singleton, if_neg h]

theorem xml_eq (value : Text) : xml value = value.flatMap xmlWrite := by
  have hfirst : replace '&' "&amp;".toList value =
      value.flatMap fun c => if c = '&' then "&amp;".toList else [c] := rfl
  rw [xml, hfirst, replace_flatMap, replace_flatMap, replace_flatMap, replace_flatMap]
  congr 1
  funext c
  unfold xmlWrite
  split_ifs with hamp hlt hgt hquot hapos
  · rfl
  · subst hlt; rfl
  · subst hgt; rfl
  · subst hquot; rfl
  · subst hapos; rfl
  · rw [replace_singleton hlt, replace_singleton hgt, replace_singleton hquot,
      replace_singleton hapos]

theorem run_xml {value : Text} (h : PlainText value) (builder : Plist.Builder) (seen : Text) :
    Plist.run (some ⟨builder, .text seen⟩) (xml value) =
      some ⟨builder, .text (value.reverse ++ seen)⟩ := by
  rw [xml_eq]
  apply Plist.run_flatMap
  intro c hc builder seen
  unfold xmlWrite
  split_ifs with hamp hlt hgt hquot hapos
  · subst hamp; rfl
  · subst hlt; rfl
  · subst hgt; rfl
  · subst hquot; rfl
  · subst hapos; rfl
  · exact Plist.run_char (xmlChar_of_plain (h c hc)) hlt hamp builder seen

/-- The entries of the property list, up to a number of them. -/
def launchdEntries (spec : ServiceSpec) : List (Text × Plist.Value) :=
  [("Label".toList, .string LAUNCHD_LABEL),
    ("ProgramArguments".toList, .array [.string spec.program, .string "daemon".toList]),
    ("WorkingDirectory".toList, .string spec.home),
    ("EnvironmentVariables".toList, .dict [("AGEND_HOME".toList, .string spec.home),
      ("HOME".toList, .string spec.userHome), ("PATH".toList, .string spec.searchPath)]),
    ("RunAtLoad".toList, .boolean true), ("KeepAlive".toList, .boolean true),
    ("AbandonProcessGroup".toList, .boolean true), ("ThrottleInterval".toList, .integer ['5']),
    ("Umask".toList, .integer ['6', '3']),
    ("StandardOutPath".toList, .string (spec.home ++ "/logs/service.stdout.log".toList)),
    ("StandardErrorPath".toList, .string (spec.home ++ "/logs/service.stderr.log".toList))]

/-- Each value is read back whole, and the markup around it as it was written. -/
theorem launchd_read {spec : ServiceSpec} (hprogram : PlainText spec.program)
    (hhome : PlainText spec.home) (huser : PlainText spec.userHome)
    (hpath : PlainText spec.searchPath) :
    Plist.read spec.launchd = some (.dict (launchdEntries spec)) := by
  have hrun : Plist.run (some Plist.start) spec.launchd =
      some ⟨⟨[], some (.dict (launchdEntries spec))⟩, .text ['\n']⟩ := by
    unfold ServiceSpec.launchd LAUNCHD_LABEL
    rewrite [Plist.run_flatten]
    -- up to each value the reader is at the start of an element's text
    repeat rewrite [Plist.foldl_literal]
    rewrite [List.foldl_cons]
    change List.foldl Plist.run (Plist.run (some ⟨⟨[.leaf _ [], .array [], .dict [_] _,
      .plist none], none⟩, .text []⟩) _) _ = _
    rw [run_xml hprogram, List.append_nil]
    repeat rewrite [Plist.foldl_literal]
    rewrite [List.foldl_cons]
    change List.foldl Plist.run (Plist.run (some ⟨⟨[.leaf _ [], .dict [_, _] _,
      .plist none], none⟩, .text []⟩) _) _ = _
    rw [run_xml hhome, List.append_nil]
    repeat rewrite [Plist.foldl_literal]
    rewrite [List.foldl_cons]
    change List.foldl Plist.run (Plist.run (some ⟨⟨[.leaf _ [], .dict [] _, .dict [_, _, _] _,
      .plist none], none⟩, .text []⟩) _) _ = _
    rw [run_xml hhome, List.append_nil]
    repeat rewrite [Plist.foldl_literal]
    rewrite [List.foldl_cons]
    change List.foldl Plist.run (Plist.run (some ⟨⟨[.leaf _ [], .dict [_] _, .dict [_, _, _] _,
      .plist none], none⟩, .text []⟩) _) _ = _
    rw [run_xml huser, List.append_nil]
    repeat rewrite [Plist.foldl_literal]
    rewrite [List.foldl_cons]
    change List.foldl Plist.run (Plist.run (some ⟨⟨[.leaf _ [], .dict [_, _] _, .dict [_, _, _] _,
      .plist none], none⟩, .text []⟩) _) _ = _
    rw [run_xml hpath, List.append_nil]
    repeat rewrite [Plist.foldl_literal]
    rewrite [List.foldl_cons]
    change List.foldl Plist.run (Plist.run (some ⟨⟨[.leaf _ [], .dict [_, _, _, _, _, _, _, _, _] _,
      .plist none], none⟩, .text []⟩) _) _ = _
    rw [run_xml hhome, List.append_nil]
    repeat rewrite [Plist.foldl_literal]
    rewrite [List.foldl_cons]
    change List.foldl Plist.run (Plist.run (some ⟨⟨[.leaf _ [], .dict [_, _, _, _, _, _, _, _, _, _] _,
      .plist none], none⟩, .text []⟩) _) _ = _
    rw [run_xml hhome, List.append_nil]
    repeat rewrite [Plist.foldl_literal]
    change some (Plist.Reader.mk ⟨[], some (.dict [_, _, _, _, _, _, _, _, _, _, _])⟩
      (.text ['\n'])) = _
    have hlog : ∀ log : Text, spec.home ++ log = (log.reverse ++ spec.home.reverse).reverse := by
      intro log
      rw [List.reverse_append, List.reverse_reverse, List.reverse_reverse]
    unfold launchdEntries LAUNCHD_LABEL
    repeat rewrite [List.reverse_reverse]
    rewrite [hlog, hlog]
    repeat rewrite [String.toList_ofList]
    rfl
  rw [Plist.read, hrun]
  rfl

/-! The unit. -/

/-- What a percent sign and what a backslash or a quote is written as. -/
def doubled (text : Text) : Text := text.flatMap fun c => if c = '%' then ['%', '%'] else [c]

def quoteWrite (c : Char) : Text :=
  if c = '\\' then ['\\', '\\'] else if c = '"' then ['\\', '"'] else [c]

theorem unit_eq (value : Text) :
    unit value = '"' :: ((doubled value).flatMap quoteWrite ++ ['"']) := by
  have hfirst : replace '\\' ['\\', '\\'] value =
      value.flatMap fun c => if c = '\\' then ['\\', '\\'] else [c] := rfl
  rw [unit, hfirst, replace_flatMap, replace_flatMap, doubled, List.flatMap_assoc]
  congr 2
  congr 1
  funext c
  by_cases hslash : c = '\\'
  · subst hslash
    rfl
  · by_cases hquote : c = '"'
    · subst hquote
      rfl
    · by_cases hpercent : c = '%'
      · subst hpercent
        rfl
      · rw [if_neg hslash, if_neg hpercent, replace_singleton hquote, replace_singleton hpercent,
          List.flatMap_singleton, quoteWrite, if_neg hslash, if_neg hquote]

/-- A quoted word is read back with its percent signs still doubled. -/
theorem runSplit_unit (value : Text) (words : List UnitFile.Word) :
    UnitFile.runSplit (some ⟨words, .between⟩) (unit value) =
      some ⟨words, .closed (doubled value).reverse⟩ := by
  have hbody := UnitFile.runSplit_flatMap quoteWrite '"' (doubled value)
    (by
      intro c _ words seen
      by_cases hslash : c = '\\'
      · subst hslash
        rfl
      · by_cases hquote : c = '"'
        · subst hquote
          rfl
        · rw [quoteWrite, if_neg hslash, if_neg hquote, UnitFile.runSplit, UnitFile.split]
          simp only [if_neg hquote, if_neg hslash, UnitFile.runSplit]) words []
  rw [List.append_nil] at hbody
  rw [unit_eq, ← List.singleton_append, UnitFile.runSplit_append, UnitFile.runSplit_append]
  change UnitFile.runSplit (UnitFile.runSplit (some ⟨words, .quoted '"' []⟩) _) ['"'] = _
  rw [hbody]
  rfl

theorem specifiers_doubled (text rest : Text) :
    UnitFile.specifiers (doubled text ++ rest) = (UnitFile.specifiers rest).map (text ++ ·) :=
  UnitFile.specifiers_append text rest

/-- One quoted assignment sets one variable to what was written. -/
theorem environment_unit (name value : Text) (hname : '=' ∉ name) :
    UnitFile.environment (unit (name ++ '=' :: value)) = some [(name, value)] := by
  have hwords : UnitFile.words (unit (name ++ '=' :: value)) =
      some [⟨doubled (name ++ '=' :: value), true⟩] := by
    rw [UnitFile.words, runSplit_unit]
    change some [UnitFile.Word.mk (doubled (name ++ '=' :: value)).reverse.reverse true] = _
    rw [List.reverse_reverse]
  have hexpand := specifiers_doubled (name ++ '=' :: value) []
  rw [List.append_nil] at hexpand
  have hletters : ∀ c ∈ name, decide (c ≠ '=') = true := by
    intro c hc
    rw [decide_eq_true_eq]
    intro heq
    exact hname (heq ▸ hc)
  have hassignment : UnitFile.assignment (name ++ '=' :: value) = some (name, value) := by
    rw [UnitFile.assignment, List.dropWhile_append_of_pos hletters,
      List.takeWhile_append_of_pos hletters]
    simp
  rw [UnitFile.environment, hwords]
  simp [hexpand, UnitFile.specifiers, hassignment]

end Agend.Setup
