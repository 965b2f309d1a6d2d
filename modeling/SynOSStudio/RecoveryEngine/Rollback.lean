import SynOSStudio.RecoveryEngine.Operations

/-!
# Scheduling a restore

`schedule` checks the target, takes a snapshot of the current system as the
fallback, publishes the transaction and arms the one-time boot entry. `cancel`
takes a scheduled restore back. The engine holds the start lock only while it
publishes the transaction.
-/

namespace RecoveryEngine

open InterruptiblePrograms

inductive RollbackErrorCode where
  | alreadyPending | invalidTarget | unsupportedLayout | bootIntegration | commandFailed
  | stateCommit
  deriving DecidableEq, Repr

structure RollbackError where
  code : RollbackErrorCode
  message : String
  deriving DecidableEq, Repr

/-- The part of the layout report that the engines read. -/
structure LayoutReport where
  support : LayoutSupport
  rootSource : Option String

namespace Rollback

section Backend

def transactionError (error : TransactionError) : RollbackError :=
  ⟨if error.code = .alreadyPending then .alreadyPending else .stateCommit, error.message⟩

def stateCommit (message : String) : RollbackError :=
  ⟨.stateCommit, message⟩

/-- `inspect_current` reports and never fails: a layout that cannot be read or is another
one is not supported, whichever the reason. -/
def inspectLayout {ε : Type} : Action ε LayoutReport :=
  Attempt.call (.boot .layout) fun
    | .ok source => .ok ⟨.supported, some source⟩
    | .error _ => .ok ⟨.unavailable, none⟩

def pending : Action RollbackError (Option RollbackTransaction) :=
  Attempt.mapError transactionError TransactionStore.loadPending

def packageTransactionPending : Action RollbackError Bool := do
  let found ← Attempt.mapError stateCommit PackageTransactionStore.loadPending
  pure found.isSome

def verifyTarget (id : DeploymentId) : Action RollbackError DeploymentRecord := do
  let report ← inspectLayout
  let record ← Attempt.mapError (fun e : OperationError => ⟨.invalidTarget, e.message⟩)
    (Operations.verify report.support id)
  let _ : Unit ← Attempt.call (.boot (.verifySecureBoot id))
    (Except.mapError fun e => ⟨.invalidTarget, "Secure Boot validation failed: " ++ e⟩)
  pure record

def preRollbackRequest : Operations.SnapshotRequest where
  title := "Before system restore"
  reason := "Safety snapshot created before restoring an earlier system snapshot"
  scheduleId := none
  pinned := false
  kind := .preRollback
  completedState := .ready

/-- `create_pre_rollback`, with the random identifier as an argument. -/
def createFallback (id : DeploymentId) : Action RollbackError DeploymentRecord := do
  let report ← inspectLayout
  Attempt.mapError (fun e : OperationError => stateCommit e.message)
    (Operations.createSnapshot report.support id preRollbackRequest)

def canonicalRootUuid (value : String) : Except RollbackError String :=
  match Uuid.parseStr value with
  | none => .error ⟨.invalidTarget, "root filesystem UUID is invalid"⟩
  | some parsed =>
    if parsed.hyphenated = value then .ok value
    else .error ⟨.invalidTarget, "root filesystem UUID is not canonical"⟩

def rootFilesystemUuid (report : LayoutReport) : Action RollbackError String := do
  Attempt.ofExcept (ensure report.rootSource.isSome
    ⟨.unsupportedLayout, "The root filesystem source is unavailable"⟩)
  let text : String ← Attempt.call (.boot .rootFilesystemUuid)
    (Except.mapError fun e => ⟨.commandFailed, e⟩)
  Attempt.ofExcept (canonicalRootUuid (String.ofList (trimmed text.toList)))

def verifyOneShotSupport : Action RollbackError Unit :=
  Attempt.call (.boot .ensureEnvironmentBlock) (Except.mapError fun e => ⟨.bootIntegration, e⟩)

def provisionRecoveryBootArtifacts : Action RollbackError RecoveryBootArtifacts :=
  Attempt.call (.boot .provisionArtifacts) (Except.mapError fun e => ⟨.bootIntegration, e⟩)

def acquireStart : Action RollbackError Unit :=
  Attempt.call (.lock .acquireStart)
    (Except.mapError fun e => stateCommit ("Could not coordinate rollback transaction: " ++ e))

/-- Under the start lock no package transaction may be pending. -/
def createTransactionLocked (transaction : RollbackTransaction) : Action RollbackError Unit := do
  let found ← Attempt.mapError stateCommit PackageTransactionStore.loadPending
  Attempt.ofExcept (ensure found.isNone
    ⟨.alreadyPending, "A package transaction claimed the recovery boundary"⟩)
  Attempt.mapError transactionError (TransactionStore.create transaction)

def createTransaction (transaction : RollbackTransaction) : Action RollbackError Unit :=
  Operations.withLock acquireStart .releaseStart (createTransactionLocked transaction)

def updateTransaction (transaction : RollbackTransaction) : Action RollbackError Unit :=
  Attempt.mapError transactionError (TransactionStore.update transaction)

def removeTransaction : Action RollbackError Unit :=
  Attempt.mapError transactionError TransactionStore.remove

def regenerateGrub : Action RollbackError Unit :=
  Attempt.call (.boot .regenerateGrub) (Except.mapError fun e => ⟨.commandFailed, e⟩)

def verifyGrubEntry (transaction : RollbackTransaction) : Action RollbackError Unit :=
  Attempt.call (.boot (.verifyGrubEntry transaction))
    (Except.mapError fun e => ⟨.bootIntegration, e⟩)

def armOnce : Action RollbackError String :=
  Attempt.call (.boot .armOnce) (Except.mapError fun e => ⟨.bootIntegration, e⟩)

def clearOnce : Action RollbackError Unit :=
  Attempt.call (.boot .clearOnce) (Except.mapError fun e => ⟨.bootIntegration, e⟩)

end Backend

section Schedule

/-- The checks and preparations before the current system is protected. -/
def prepare (targetId : DeploymentId) :
    Action RollbackError (DeploymentRecord × String × RecoveryBootArtifacts) := do
  let found ← pending
  Attempt.ofExcept (ensure found.isNone
    ⟨.alreadyPending, "Another system restore is already pending"⟩)
  let package ← packageTransactionPending
  Attempt.ofExcept (ensure (!package)
    ⟨.alreadyPending, "A package transaction is already creating system snapshots"⟩)
  let report ← inspectLayout
  Attempt.ofExcept (ensure (report.support == .supported)
    ⟨.unsupportedLayout, "The complete SynOS Btrfs layout is required"⟩)
  let target ← verifyTarget targetId
  Attempt.ofExcept (ensure target.canRestore
    ⟨.invalidTarget, "Only a complete, healthy system snapshot can be scheduled"⟩)
  let rootUuid ← rootFilesystemUuid report
  verifyOneShotSupport
  let artifacts ← provisionRecoveryBootArtifacts
  pure (target, rootUuid, artifacts)

/-- The closure of `schedule`, whose failure is cleaned up. -/
def publish (transaction : RollbackTransaction) : Action RollbackError RollbackTransaction := do
  createTransaction transaction
  regenerateGrub
  verifyGrubEntry transaction
  let now ← utcNow
  let armed ← Attempt.ofExcept ((transaction.transition .armed now).mapError transactionError)
  updateTransaction armed
  let armedEntry ← armOnce
  Attempt.ofExcept (ensure (armedEntry == armed.grubEntryId)
    ⟨.bootIntegration, "GRUB armed an unexpected recovery entry"⟩)
  pure armed

def problem (result : Except RollbackError Unit) : List String :=
  match result with
  | .ok () => []
  | .error e => [e.message]

/-- Every step is tried, also when an earlier one fails. -/
def cleanupFailedSchedule : Action RollbackError Unit := do
  let cleared ← Attempt.outcome clearOnce
  let removed ← Attempt.outcome removeTransaction
  let regenerated ← Attempt.outcome regenerateGrub
  let problems := problem cleared ++ problem removed ++ problem regenerated
  Attempt.ofExcept (ensure problems.isEmpty (stateCommit ("; ".intercalate problems)))

/-- `schedule`, with the random identifiers of the transaction and of the fallback as
arguments. -/
def schedule (targetId : DeploymentId) (id : RollbackId) (fallbackId : DeploymentId) :
    Action RollbackError RollbackTransaction := do
  let (target, rootUuid, artifacts) ← prepare targetId
  let fallback ← createFallback fallbackId
  let now ← utcNow
  let transaction := RollbackTransaction.new id now target.id fallback.id rootUuid
    artifacts.kernelRelease artifacts.kernelSha256 artifacts.initramfsSha256
    artifacts.confirmSha256
  let result ← Attempt.outcome (publish transaction)
  match result with
  | .ok armed => pure armed
  | .error error => do
    let cleanup ← Attempt.outcome cleanupFailedSchedule
    throw (match cleanup with
      | .ok () => error
      | .error problem =>
        ⟨error.code, error.message ++ "; cleanup also failed: " ++ problem.message⟩)

def cancel : Action RollbackError Unit := do
  let found ← pending
  match found with
  | none => throw ⟨.invalidTarget, "No system restore is pending"⟩
  | some transaction => do
    Attempt.ofExcept (ensure (transaction.phase == .preparing || transaction.phase == .armed)
      (stateCommit "A restore can no longer be cancelled after early boot has begun"))
    clearOnce
    removeTransaction
    regenerateGrub

end Schedule

end Rollback

end RecoveryEngine
