import Agend.Library.Observed
import Agend.Library.Path
import Agend.Runtime.Records

/-! The version checks: of the packages in the npm registry, one a backend, and of the programs on
this system, one an instance. -/
namespace Agend.Version

open Library
open Agend.Runtime (Backend)

def registryIntervalMs : Nat := 24 * 60 * 60 * 1000

def checkIntervalMs : Nat := 60000

/-- An error is recorded when it says something, and not too much. -/
def validError (e : String) : Bool := e ≠ "" && e.utf8ByteSize ≤ 512

structure PublishedBackend where
  backend : String
  package : String
  version : String
  deriving DecidableEq

def npmPackage : Backend → String
  | .claude => "@anthropic-ai/claude-code"
  | .codex => "@openai/codex"
  | .opencode => "opencode-ai"

def validVersion (version : String) : Bool :=
  version ≠ "" && version.utf8ByteSize ≤ 80 && version.toList.head?.any (·.isAlphanum) &&
    version.toList.all fun c => c.isAlphanum || c ∈ ['.', '-', '_', '+']

/-- A release of the package of the backend. -/
def PublishedBackend.isOf (r : PublishedBackend) (backend : Backend) : Bool :=
  r.backend = backend.asStr && r.package = npmPackage backend && validVersion r.version

/-- A backend is always in scope, and has one generation. -/
abbrev RegistryObservation := Observation Backend Unit Unit PublishedBackend

abbrev Registry := Observations Backend Unit Unit PublishedBackend

/-- A ticket is an attempt of a backend. -/
def registry : Checking Backend Unit Unit PublishedBackend (Backend × Nat) where
  intervalMs := registryIntervalMs
  intervalMs_pos := by decide
  invalid := "invalid backend registry observation"
  readable row := row.latest.all (·.isOf row.key) && row.error.all validError &&
    row.attempt ≠ 0 && row.acknowledgedRevision ≤ row.revision &&
    row.completedMs.all fun at_ => row.startedMs ≤ at_
  accepts ticket
    | .ok r => r.isOf ticket.1
    | .error e => validError e
  ticketKey := Prod.fst
  answers ticket row := row.attempt = ticket.2
  quietBaseline := false

namespace Registry

variable (s : Registry)

def beginRegistryCheck (backend : Backend) (now : Nat) :
    Except String (Registry × Option RegistryObservation) :=
  registry.begin_ s backend now (.ok ())

def finishRegistryCheck (backend : Backend) (attempt now : Nat)
    (result : Except String PublishedBackend) : Except String (Registry × Bool) :=
  registry.finish s (backend, attempt) now result

def acknowledgeRegistryObservation (backend : Backend) (revision : Nat) :
    Except String (Registry × Bool) :=
  registry.acknowledge s backend () revision

end Registry

structure SystemBackendVersion where
  backend : String
  configuredProgram : String
  resolvedProgram : String
  versionOutput : String
  sha256 : String
  deriving DecidableEq

/-- What of an instance its observation is for. -/
structure Scope where
  backend : String
  program : String
  workingDirectory : String
  deriving DecidableEq

abbrev SystemVersionObservation := Observation String String Scope SystemBackendVersion

/-- The instances as far as they matter here, and their observations. -/
abbrev SystemVersions := Observations String String Scope SystemBackendVersion

def isHexDigit (c : Char) : Bool := c.isDigit || c ∈ "abcdefABCDEF".toList

/-- A version of the program that the ticket is for. -/
def SystemBackendVersion.isOf (v : SystemBackendVersion) (ticket : SystemVersionObservation) :
    Bool :=
  v.backend = ticket.scope.backend && v.configuredProgram = ticket.scope.program &&
    Path.isAbsolute v.resolvedProgram && v.versionOutput ≠ "" &&
    v.versionOutput.utf8ByteSize ≤ 65536 && v.sha256.utf8ByteSize = 64 &&
    v.sha256.toList.all isHexDigit

/-- A ticket is the row as it was recorded. -/
def systemVersion :
    Checking String String Scope SystemBackendVersion SystemVersionObservation where
  intervalMs := checkIntervalMs
  intervalMs_pos := by decide
  invalid := "invalid system version observation"
  readable row := row.generation ≠ "" && row.attempt ≠ 0 &&
    row.acknowledgedRevision ≤ row.revision
  accepts ticket
    | .ok v => v.isOf ticket
    | .error e => validError e
  ticketKey := Observation.key
  answers ticket row := row.generation = ticket.generation && row.attempt = ticket.attempt &&
    row.scope = ticket.scope && row.startedMs = ticket.startedMs
  quietBaseline := true

namespace SystemVersions

variable (s : SystemVersions)

def beginSystemVersionCheck (id : String) (now : Nat) (newSessionId : Except String String) :
    Except String (SystemVersions × Option SystemVersionObservation) :=
  systemVersion.begin_ s id now newSessionId

def finishSystemVersionCheck (ticket : SystemVersionObservation) (now : Nat)
    (result : Except String SystemBackendVersion) : Except String (SystemVersions × Bool) :=
  systemVersion.finish s ticket now result

def acknowledgeSystemVersion (id generation : String) (revision : Nat) :
    Except String (SystemVersions × Bool) :=
  systemVersion.acknowledge s id generation revision

end SystemVersions

end Agend.Version
