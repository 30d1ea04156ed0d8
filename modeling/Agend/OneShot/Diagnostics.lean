import Agend.Library.Fields
import Agend.Runtime.Records

/-! What the one-shot commands print of backends, of a setup and of a Telegram pairing. -/
namespace Agend.OneShot

open Library
open Agend.Runtime (ImportedBackend ManagedLaunchIntent BackendSwitchPhase BackendSwitchProblem
  BackendSwitch)

inductive CheckStatus where
  | ok
  | warn
  | fail
  deriving DecidableEq

def checkStatus : Serde CheckStatus :=
  .enum [("ok", .ok), ("warn", .warn), ("fail", .fail)] none
    fun | .ok => "ok" | .warn => "warn" | .fail => "fail"

/-- One line of `agend doctor`. -/
structure Check where
  check : String
  status : CheckStatus
  detail : String
  fix : Option String
  deriving DecidableEq

def check : Serde Check :=
  .struct (.map
    (.and (.required "check" .string) <|
      .and (.required "status" checkStatus) <|
      .and (.required "detail" .string) <|
      .skipped "fix" (.option .string))
    (fun (check, status, detail, fix) => ⟨check, status, detail, fix⟩)
    fun r => some (r.check, r.status, r.detail, r.fix))

structure SetupDiagnosticReply where
  bootId : Nat
  observedMs : Nat
  github : Check
  deriving DecidableEq

def setupDiagnosticReply : Serde SetupDiagnosticReply :=
  .struct (.map
    (.and (.required "boot_id" .u64) <|
      .and (.required "observed_ms" .u64) <|
      .required "github" check)
    (fun (bootId, observedMs, github) => ⟨bootId, observedMs, github⟩)
    fun r => some (r.bootId, r.observedMs, r.github))

/-! Backends. -/

def importedBackend : Serde ImportedBackend :=
  .strict (.map
    (.and (.required "format" .u32) <|
      .and (.required "backend" .string) <|
      .and (.required "version" .string) <|
      .and (.required "sha256" .string) <|
      .required "bytes" .u64)
    (fun (format, backend, version, sha256, bytes) => ⟨format, backend, version, sha256, bytes⟩)
    fun r => some (r.format, r.backend, r.version, r.sha256, r.bytes))

/-- A bounded `--version` observation of an external configured executable. -/
structure SystemBackendVersion where
  backend : String
  configuredProgram : String
  resolvedProgram : String
  versionOutput : String
  sha256 : String
  deriving DecidableEq

def systemBackendVersion : Serde SystemBackendVersion :=
  .strict (.map
    (.and (.required "backend" .string) <|
      .and (.required "configured_program" .string) <|
      .and (.required "resolved_program" .string) <|
      .and (.required "version_output" .string) <|
      .required "sha256" .string)
    (fun (backend, configured, resolved, output, sha256) =>
      ⟨backend, configured, resolved, output, sha256⟩)
    fun r => some (r.backend, r.configuredProgram, r.resolvedProgram, r.versionOutput, r.sha256))

/-- One durable external-program observation per configured instance. -/
structure SystemVersionObservation where
  instanceId : String
  generation : String
  backend : String
  program : String
  workingDirectory : String
  attempt : Nat
  startedMs : Nat
  completedMs : Option Nat
  latest : Option SystemBackendVersion
  error : Option String
  changedMs : Option Nat
  revision : Nat
  acknowledgedRevision : Nat
  deriving DecidableEq

def systemVersionObservation : Serde SystemVersionObservation :=
  .strict (.map
    (.and (.required "instance_id" .string) <|
      .and (.required "generation" .string) <|
      .and (.required "backend" .string) <|
      .and (.required "program" .string) <|
      .and (.required "working_directory" .string) <|
      .and (.required "attempt" .u64) <|
      .and (.required "started_ms" .u64) <|
      .and (.optional "completed_ms" (.option .u64)) <|
      .and (.optional "latest" (.option systemBackendVersion)) <|
      .and (.optional "error" (.option .string)) <|
      .and (.optional "changed_ms" (.option .u64)) <|
      .and (.required "revision" .u64) <|
      .required "acknowledged_revision" .u64)
    (fun (instanceId, generation, backend, program, workingDirectory, attempt, startedMs,
        completedMs, latest, error, changedMs, revision, acknowledgedRevision) =>
      ⟨instanceId, generation, backend, program, workingDirectory, attempt, startedMs, completedMs,
        latest, error, changedMs, revision, acknowledgedRevision⟩)
    fun r => some (r.instanceId, r.generation, r.backend, r.program, r.workingDirectory, r.attempt,
      r.startedMs, r.completedMs, r.latest, r.error, r.changedMs, r.revision,
      r.acknowledgedRevision))

structure ManagedDiagnostic where
  binding : String
  artifact : ImportedBackend
  deriving DecidableEq

def managedDiagnostic : Serde ManagedDiagnostic :=
  .struct (.map (.and (.required "binding" .string) <| .required "artifact" importedBackend)
    (fun (binding, artifact) => ⟨binding, artifact⟩)
    fun r => some (r.binding, r.artifact))

/-- Read-only database snapshot, not a claim about a loaded process or live login. -/
structure BackendDiagnostic where
  instanceId : String
  backend : String
  configuredProgram : String
  workingDirectory : String
  externalVersion : Option SystemVersionObservation
  managedReservation : Option ManagedDiagnostic
  deriving DecidableEq

def backendDiagnostic : Serde BackendDiagnostic :=
  .struct (.map
    (.and (.required "instance_id" .string) <|
      .and (.required "backend" .string) <|
      .and (.required "configured_program" .string) <|
      .and (.required "working_directory" .string) <|
      .and (.optional "external_version" (.option systemVersionObservation)) <|
      .optional "managed_reservation" (.option managedDiagnostic))
    (fun (instanceId, backend, program, workingDirectory, version, reservation) =>
      ⟨instanceId, backend, program, workingDirectory, version, reservation⟩)
    fun r => some (r.instanceId, r.backend, r.configuredProgram, r.workingDirectory,
      r.externalVersion, r.managedReservation))

inductive CapabilityPolicyKind where
  | exactVersion
  | recordedFrames
  | scopedVersion
  | disabled
  | verificationOverride
  | unknown
  deriving DecidableEq

def capabilityPolicyKind : Serde CapabilityPolicyKind :=
  .enum [("exact_version", .exactVersion), ("recorded_frames", .recordedFrames),
      ("scoped_version", .scopedVersion), ("disabled", .disabled),
      ("verification_override", .verificationOverride)] (some .unknown)
    fun
      | .exactVersion => "exact_version"
      | .recordedFrames => "recorded_frames"
      | .scopedVersion => "scoped_version"
      | .disabled => "disabled"
      | .verificationOverride => "verification_override"
      | .unknown => "unknown"

/-- A rule of the responding daemon, never a grant or runtime eligibility result. -/
structure BackendCapabilityPolicy where
  capabilityId : String
  policyKind : CapabilityPolicyKind
  versionConstraint : String
  additionalRequirements : String
  evidenceScope : String
  deriving DecidableEq

def backendCapabilityPolicy : Serde BackendCapabilityPolicy :=
  .struct (.map
    (.and (.required "capability_id" .string) <|
      .and (.required "policy_kind" capabilityPolicyKind) <|
      .and (.required "version_constraint" .string) <|
      .and (.required "additional_requirements" .string) <|
      .required "evidence_scope" .string)
    (fun (capabilityId, kind, constraint, requirements, scope) =>
      ⟨capabilityId, kind, constraint, requirements, scope⟩)
    fun r => some (r.capabilityId, r.policyKind, r.versionConstraint, r.additionalRequirements,
      r.evidenceScope))

inductive CredentialConfiguration where
  | configured
  | missing
  | notRequired
  | unknown
  deriving DecidableEq

def credentialConfiguration : Serde CredentialConfiguration :=
  .enum [("configured", .configured), ("missing", .missing), ("not_required", .notRequired),
      ("unknown", .unknown)] none
    fun
      | .configured => "configured"
      | .missing => "missing"
      | .notRequired => "not_required"
      | .unknown => "unknown"

inductive ProviderOutcome where
  | succeeded
  | authenticationRejected
  | accessDenied
  | rateLimited
  | failed
  deriving DecidableEq

def providerOutcome : Serde ProviderOutcome :=
  .enum [("succeeded", .succeeded), ("authentication_rejected", .authenticationRejected),
      ("access_denied", .accessDenied), ("rate_limited", .rateLimited), ("failed", .failed)] none
    fun
      | .succeeded => "succeeded"
      | .authenticationRejected => "authentication_rejected"
      | .accessDenied => "access_denied"
      | .rateLimited => "rate_limited"
      | .failed => "failed"

/-- A historical native request result, not current token validity. -/
structure ProviderObservation where
  provider : String
  model : String
  completedMs : Nat
  outcome : ProviderOutcome
  deriving DecidableEq

def providerObservation : Serde ProviderObservation :=
  .struct (.map
    (.and (.required "provider" .string) <|
      .and (.required "model" .string) <|
      .and (.required "completed_ms" .u64) <|
      .required "outcome" providerOutcome)
    (fun (provider, model, completedMs, outcome) => ⟨provider, model, completedMs, outcome⟩)
    fun r => some (r.provider, r.model, r.completedMs, r.outcome))

/-- A bounded observation of one current holder and session. -/
structure RuntimeDiagnostic where
  sessionId : String
  holderPid : Nat
  observedMs : Nat
  credentialConfiguration : CredentialConfiguration
  providerObservations : List ProviderObservation
  capabilities : List Check
  deriving DecidableEq

def runtimeDiagnostic : Serde RuntimeDiagnostic :=
  .struct (.map
    (.and (.required "session_id" .string) <|
      .and (.required "holder_pid" .u32) <|
      .and (.required "observed_ms" .u64) <|
      .and (.required "credential_configuration" credentialConfiguration) <|
      .and (.required "provider_observations" (.vec providerObservation)) <|
      .required "capabilities" (.vec check))
    (fun (sessionId, holderPid, observedMs, credential, providers, capabilities) =>
      ⟨sessionId, holderPid, observedMs, credential, providers, capabilities⟩)
    fun r => some (r.sessionId, r.holderPid, r.observedMs, r.credentialConfiguration,
      r.providerObservations, r.capabilities))

/-- The daemon incarnation that produced this configuration snapshot. -/
structure BackendDiagnosticReply where
  bootId : Nat
  policies : List BackendCapabilityPolicy
  snapshot : Option BackendDiagnostic
  runtime : Option RuntimeDiagnostic
  deriving DecidableEq

def backendDiagnosticReply : Serde BackendDiagnosticReply :=
  .struct (.map
    (.and (.required "boot_id" .u64) <|
      .and (.required "policies" (.vec backendCapabilityPolicy)) <|
      .and (.optional "snapshot" (.option backendDiagnostic)) <|
      .optional "runtime" (.option runtimeDiagnostic))
    (fun (bootId, policies, snapshot, runtime) => ⟨bootId, policies, snapshot, runtime⟩)
    fun r => some (r.bootId, r.policies, r.snapshot, r.runtime))

/-! A backend switch. -/

def managedLaunchIntent : Serde ManagedLaunchIntent :=
  .strict (.map
    (.and (.required "binding" .string) <|
      .and (.required "instance_id" .string) <|
      .and (.required "artifact" importedBackend) <|
      .and (.required "configured_program" .string) <|
      .and (.required "configured_args" (.vec .string)) <|
      .and (.optional "session_id" (.option .string)) <|
      .and (.required "delivery" .string) <|
      .and (.required "executable" .string) <|
      .and (.required "args" (.vec .string)) <|
      .required "working_directory" .string)
    (fun (binding, instanceId, artifact, program, configuredArgs, sessionId, delivery, executable,
        args, workingDirectory) =>
      ⟨binding, instanceId, artifact, program, configuredArgs, sessionId, delivery, executable,
        args, workingDirectory⟩)
    fun r => some (r.binding, r.instanceId, r.artifact, r.configuredProgram, r.configuredArgs,
      r.sessionId, r.delivery, r.executable, r.args, r.workingDirectory))

def backendSwitchPhase : Serde BackendSwitchPhase :=
  .enum [("prepared", .prepared), ("cancelled", .cancelled), ("committed", .committed),
      ("activated", .activated), ("rollback_prepared", .rollbackPrepared),
      ("restoring", .restoring), ("rolled_back", .rolledBack)] none
    fun
      | .prepared => "prepared"
      | .cancelled => "cancelled"
      | .committed => "committed"
      | .activated => "activated"
      | .rollbackPrepared => "rollback_prepared"
      | .restoring => "restoring"
      | .rolledBack => "rolled_back"

def backendSwitchProblem : Serde BackendSwitchProblem :=
  .strict (.map (.and (.required "reason" .string) <| .required "since_unix_ms" .u64)
    (fun (reason, since) => ⟨reason, since⟩)
    fun r => some (r.reason, r.sinceUnixMs))

def backendSwitch : Serde BackendSwitch :=
  .strict (.map
    (.and (.required "id" .string) <|
      .and (.required "instance_id" .string) <|
      .and (.required "previous" managedLaunchIntent) <|
      .and (.required "target" importedBackend) <|
      .and (.required "target_program" .string) <|
      .and (.optional "session_id" (.option .string)) <|
      .and (.required "phase" backendSwitchPhase) <|
      .and (.skipped "problem" (.option backendSwitchProblem)) <|
      .skipped "activation_deadline_unix_ms" (.option .u64))
    (fun (id, instanceId, previous, target, program, sessionId, phase, problem, deadline) =>
      ⟨id, instanceId, previous, target, program, sessionId, phase, problem, deadline⟩)
    fun r => some (r.id, r.instanceId, r.previous, r.target, r.targetProgram, r.sessionId, r.phase,
      r.problem, r.activationDeadlineUnixMs))

/-! A Telegram pairing. -/

/-- References only: secret values never belong in configuration. -/
inductive SecretRef where
  | env (name : String)
  | file (path : String)
  deriving DecidableEq

inductive SecretKind where
  | env
  | file
  deriving DecidableEq

def secretKind : Serde SecretKind :=
  .enum [("env", .env), ("file", .file)] none fun | .env => "env" | .file => "file"

/-- The name of the variant and its content are beside each other. -/
def secretRef : Serde SecretRef :=
  .strict (.map (.and (.required "kind" secretKind) <| .required "value" .string)
    (fun | (.env, name) => .env name | (.file, path) => .file path)
    fun | .env name => some (.env, name) | .file path => some (.file, path))

structure PairingCandidate where
  chatId : Int
  userId : Nat
  topicId : Option Int
  deriving DecidableEq

def pairingCandidate : Serde PairingCandidate :=
  .strict (.map
    (.and (.required "chat_id" .i64) <|
      .and (.required "user_id" .u64) <|
      .optional "topic_id" (.option .i64))
    (fun (chatId, userId, topicId) => ⟨chatId, userId, topicId⟩)
    fun r => some (r.chatId, r.userId, r.topicId))

structure TelegramPairing where
  id : String
  token : SecretRef
  botId : Nat
  botUsername : String
  createdAtMs : Nat
  expiresAtMs : Nat
  offset : Int
  candidate : Option PairingCandidate
  deriving DecidableEq

def telegramPairing : Serde TelegramPairing :=
  .strict (.map
    (.and (.required "id" .string) <|
      .and (.required "token" secretRef) <|
      .and (.required "bot_id" .u64) <|
      .and (.required "bot_username" .string) <|
      .and (.required "created_at_ms" .u64) <|
      .and (.required "expires_at_ms" .u64) <|
      .and (.required "offset" .i64) <|
      .optional "candidate" (.option pairingCandidate))
    (fun (id, token, botId, botUsername, createdAtMs, expiresAtMs, offset, candidate) =>
      ⟨id, token, botId, botUsername, createdAtMs, expiresAtMs, offset, candidate⟩)
    fun r => some (r.id, r.token, r.botId, r.botUsername, r.createdAtMs, r.expiresAtMs, r.offset,
      r.candidate))

inductive PairingPhase where
  | pending
  | confirmed
  | cancelled
  deriving DecidableEq

def pairingPhase : Serde PairingPhase :=
  .enum [("pending", .pending), ("confirmed", .confirmed), ("cancelled", .cancelled)] none
    fun | .pending => "pending" | .confirmed => "confirmed" | .cancelled => "cancelled"

structure PairingRecord where
  session : TelegramPairing
  phase : PairingPhase
  deriving DecidableEq

def pairingRecord : Serde PairingRecord :=
  .strict (.map (.and (.required "session" telegramPairing) <| .required "phase" pairingPhase)
    (fun (session, phase) => ⟨session, phase⟩)
    fun r => some (r.session, r.phase))

end Agend.OneShot
