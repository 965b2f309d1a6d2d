import SynOSStudio.RecoveryEngine.Identifiers

/-!
# Deployment records

The metadata of one system snapshot, with the checks that run whenever a record
is written or read back. Timestamps are instants on the UTC time line.
-/

namespace RecoveryEngine

/-- An instant of `DateTime<Utc>`. -/
abbrev Timestamp := Int

abbrev DeploymentId := Uuid

abbrev RollbackId := Uuid

inductive DeploymentKind where
  | factory | manual | automatic | aptPre | aptPost | preRollback | imported
  deriving DecidableEq, Repr

inductive DeploymentState where
  | creating | ready | incomplete | broken | deleting
  deriving DecidableEq, Repr

def DeploymentState.canTransitionTo : DeploymentState → DeploymentState → Bool
  | .creating, .ready | .creating, .incomplete | .creating, .broken | .creating, .deleting => true
  | .ready, .deleting | .ready, .broken => true
  | .incomplete, .deleting | .incomplete, .broken => true
  | .broken, .deleting => true
  | _, _ => false

def deploymentSchemaVersion : ℕ := 1

structure DeploymentRecord where
  schemaVersion : ℕ
  id : DeploymentId
  parentId : Option DeploymentId
  kind : DeploymentKind
  state : DeploymentState
  createdAt : Timestamp
  title : String
  reason : String
  scheduleId : Option String
  snapshotUuid : Option String
  snapshotParentUuid : Option String
  kernelRelease : Option String
  initramfsSha256 : Option String
  bootArtifactSha256 : Option String
  dpkgStatusSha256 : Option String
  mokCertificateSha256 : Option String
  pinned : Bool
  failure : Option String
  deriving DecidableEq

inductive ModelError where
  | unsupportedSchema (version : ℕ)
  | invalidField (field : String)
  | invalidDigest (field : String)
  | incompleteIdentity
  deriving DecidableEq, Repr

def ModelError.display : ModelError → String
  | .unsupportedSchema version => s!"unsupported deployment schema version {version}"
  | .invalidField field => s!"invalid field: {field}"
  | .invalidDigest field => s!"invalid SHA-256 digest: {field}"
  | .incompleteIdentity => "deployment identity is incomplete"

def invalidText (value : String) (maximumCharacters : ℕ) : Bool :=
  value.toList.all isWhitespace || maximumCharacters < value.toList.length ||
    value.toList.any isControl

def invalidOptionalText (value : String) (maximumCharacters : ℕ) : Bool :=
  maximumCharacters < value.toList.length || value.toList.any isControl

def missing (value : Option String) : Bool :=
  value.all fun item => item.toList.all isWhitespace

def validScheduleId (value : String) : Bool :=
  !value.toList.isEmpty && value.toList.length ≤ 50 &&
    !(value.toList.head?.any fun c => c == '-' || c == '.') &&
    value.toList.all fun c => c.isAlphanum || c == '-' || c == '_'

/-- Fail with `error` unless `condition` holds. -/
def ensure {ε : Type} (condition : Bool) (error : ε) : Except ε Unit :=
  if condition then .ok () else .error error

@[simp] theorem ensure_eq_ok {ε : Type} (condition : Bool) (error : ε) :
    ensure condition error = .ok () ↔ condition = true := by
  cases condition <;> simp [ensure]

/-- A sequence of checks succeeds exactly when all of them do. -/
theorem bind_eq_ok_unit {ε : Type} (first : Except ε Unit) (rest : Unit → Except ε Unit) :
    first >>= rest = .ok () ↔ first = .ok () ∧ rest () = .ok () := by
  cases first <;> simp [bind, Except.bind]

/-- A sequence returns a value exactly when both of its steps do. -/
theorem bind_eq_ok {ε α β : Type} {first : Except ε α} {rest : α → Except ε β} {b : β} :
    first >>= rest = .ok b ↔ ∃ a, first = .ok a ∧ rest a = .ok b := by
  cases first <;> simp [bind, Except.bind]

namespace DeploymentRecord

def requiresCompleteIdentity (record : DeploymentRecord) : Bool :=
  record.state == .ready

def scheduleIdMatchesKind (record : DeploymentRecord) : Bool :=
  match record.kind, record.scheduleId with
  | .automatic, some scheduleId => validScheduleId scheduleId
  | .automatic, none => false
  | _, some _ => false
  | _, none => true

def validate (record : DeploymentRecord) : Except ModelError Unit := do
  ensure (record.schemaVersion == deploymentSchemaVersion)
    (.unsupportedSchema record.schemaVersion)
  ensure (!invalidText record.title 120) (.invalidField "title")
  ensure (!invalidText record.reason 500) (.invalidField "reason")
  ensure record.scheduleIdMatchesKind (.invalidField "schedule_id")
  ensure (record.snapshotUuid.all fun uuid => (Uuid.parseStr uuid).isSome)
    (.invalidField "snapshot_uuid")
  ensure (record.snapshotParentUuid.all fun uuid => (Uuid.parseStr uuid).isSome)
    (.invalidField "snapshot_parent_uuid")
  ensure (record.kernelRelease.all safeKernelRelease) (.invalidField "kernel_release")
  ensure (record.failure.all fun failure => !invalidOptionalText failure 2000)
    (.invalidField "failure")
  ensure (record.initramfsSha256.all isSha256) (.invalidDigest "initramfs_sha256")
  ensure (record.bootArtifactSha256.all isSha256) (.invalidDigest "boot_artifact_sha256")
  ensure (record.dpkgStatusSha256.all isSha256) (.invalidDigest "dpkg_status_sha256")
  ensure (record.mokCertificateSha256.all isSha256) (.invalidDigest "mok_certificate_sha256")
  ensure (!(record.requiresCompleteIdentity &&
      (missing record.snapshotUuid || missing record.kernelRelease ||
        record.initramfsSha256.isNone || record.bootArtifactSha256.isNone ||
        record.dpkgStatusSha256.isNone)))
    .incompleteIdentity

def canRestore (record : DeploymentRecord) : Bool :=
  record.validate.isOk && record.failure.isNone && record.state == .ready

def canDelete (record : DeploymentRecord) : Bool :=
  !record.pinned &&
    (record.state == .creating || record.state == .ready || record.state == .incomplete ||
      record.state == .broken)

end DeploymentRecord

end RecoveryEngine
