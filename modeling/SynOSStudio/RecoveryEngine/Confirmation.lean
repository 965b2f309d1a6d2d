import Mathlib.Data.String.Basic
import SynOSStudio.RecoveryEngine.Recovery

/-!
# The confirmation engine

`reconcile` runs in userspace after a boot. It confirms a restore that reached
userspace, finishes the bookkeeping of every terminal transaction, and retries
the deletion of old roots that earlier runs left behind.
-/

namespace RecoveryEngine

open InterruptiblePrograms

inductive ConfirmationOutcome where
  | noAction | confirmed | confirmedCleanupPending | cleanupCompleted | cleanupPending
  | revertedRecorded | failedRecorded
  deriving DecidableEq, Repr

inductive ConfirmationErrorCode where
  | invalidTransaction | identityMismatch | stateCommit | commandFailed
  deriving DecidableEq, Repr

structure ConfirmationError where
  code : ConfirmationErrorCode
  message : String
  deriving DecidableEq, Repr

inductive CleanupPass where
  | noRecords | completed | pending
  deriving DecidableEq, Repr

inductive OldRootCleanupOutcome where
  | removed
  | deferred (blockedSubvolumes : List String) (diagnostic : String)
  deriving DecidableEq, Repr

namespace Confirmation

def transactionError (error : TransactionError) : ConfirmationError :=
  ⟨.invalidTransaction, error.message⟩

def cleanupError (message : String) : ConfirmationError :=
  ⟨.stateCommit, message⟩

def commandError (stage error : String) : ConfirmationError :=
  ⟨.commandFailed, "Could not execute while " ++ stage ++ ": " ++ error⟩

section Backend

def pending : Action ConfirmationError (Option RollbackTransaction) :=
  Attempt.mapError transactionError TransactionStore.loadPending

def deployment (id : DeploymentId) : Action ConfirmationError DeploymentRecord :=
  Attempt.mapError (fun message => ⟨.invalidTransaction, message⟩) (DeploymentStore.loadRecord id)

/-- `read_canonical_uuid` on the text of the boot ID file. -/
def parseBootId (text : String) : Except ConfirmationError String :=
  let value := String.ofList (trimmed text.toList)
  match Uuid.parseStr value with
  | none => .error ⟨.identityMismatch, "boot ID is invalid"⟩
  | some parsed =>
    if parsed.hyphenated = value then .ok value
    else .error ⟨.identityMismatch, "boot ID is not canonical"⟩

def bootId : Action ConfirmationError String := do
  let text : String ← Attempt.call (.boot .bootId)
    (Except.mapError fun e => ⟨.identityMismatch, "Could not read boot ID: " ++ e⟩)
  Attempt.ofExcept (parseBootId text)

def kernelRelease : Action ConfirmationError String := do
  let text : String ← Attempt.call (.boot .kernelRelease)
    (Except.mapError fun e =>
      ⟨.identityMismatch, "Could not read the running kernel release: " ++ e⟩)
  let value := String.ofList (trimmed text.toList)
  Attempt.ofExcept (ensure (safeKernelRelease value)
    ⟨.identityMismatch, "The running kernel release is unsafe"⟩)
  pure value

def requestKey : List Char := "synos.btrfs_snapshots_manager=".toList

/-- The loop of `parse_requested_rollback` over the arguments of the command line. -/
def parseArguments : Option RollbackId → List (List Char) →
    Except ConfirmationError (Option RollbackId)
  | requested, [] => .ok requested
  | requested, argument :: arguments =>
    if requestKey.isPrefixOf argument then
      let value := String.ofList (argument.drop requestKey.length)
      match Uuid.parseStr value with
      | none =>
        .error ⟨.invalidTransaction, "The kernel command line contains an invalid rollback ID"⟩
      | some id =>
        if id.hyphenated = value ∧ requested = none then parseArguments (some id) arguments
        else .error
          ⟨.invalidTransaction, "The kernel command line contains an ambiguous rollback request"⟩
    else parseArguments requested arguments

def parseRequestedRollback (commandLine : String) : Except ConfirmationError (Option RollbackId) :=
  parseArguments none
    ((commandLine.toList.splitOnP isWhitespace).filter fun argument => !argument.isEmpty)

def requestedRollback : Action ConfirmationError (Option RollbackId) := do
  let text : String ← Attempt.call (.boot .commandLine)
    (Except.mapError fun e =>
      ⟨.identityMismatch, "Could not read the kernel command line: " ++ e⟩)
  Attempt.ofExcept (parseRequestedRollback text)

def currentSnapshotParentUuid : Action ConfirmationError String := do
  let parent : Option String ← Attempt.call (.disk .rootParent)
    (Except.mapError (commandError "inspecting the running root subvolume"))
  match parent with
  | none => throw ⟨.identityMismatch, "The running root parent UUID is invalid"⟩
  | some value => pure value

def updateTransaction (transaction : RollbackTransaction) : Action ConfirmationError Unit :=
  Attempt.mapError transactionError (TransactionStore.update transaction)

def removeTransaction : Action ConfirmationError Unit :=
  Attempt.mapError transactionError TransactionStore.remove

def archiveTransaction (transaction : RollbackTransaction) : Action ConfirmationError Unit :=
  Attempt.mapError transactionError (TransactionStore.archive transaction)

def clearOnce : Action ConfirmationError Unit :=
  Attempt.call (.boot .clearOnce) (Except.mapError fun e => ⟨.commandFailed, e⟩)

def regenerateGrub : Action ConfirmationError Unit :=
  Attempt.call (.boot .regenerateGrub)
    (Except.mapError (commandError "regenerating GRUB after recovery confirmation"))

/-- One mutation of the lineage, with the error text of `record_lineage_activation`. -/
def mutateLineage (mutation : LineageMutation) : Action ConfirmationError SystemLineage :=
  Attempt.call (.lineage mutation) fun
    | .ok (.ok lineage) => .ok lineage
    | .ok (.error e) => .error ⟨.stateCommit, "Could not update system history: " ++ e.message⟩
    | .error e => .error ⟨.stateCommit, "Could not update system history: " ++ e⟩

def recordLineageActivation (transaction : RollbackTransaction) (outcome : ActivationOutcome) :
    Action ConfirmationError Unit := do
  let deployments ← DeploymentStore.discover
  let _ ← mutateLineage (.ensureInitialized deployments.deployments)
  let now ← utcNow
  let _ ← mutateLineage (.recordActivation transaction outcome now)
  pure ()

/-- `RootCleanupStore::load`: a stored record is validated and must match its name. -/
def loadCleanup (id : RollbackId) : Action ConfirmationError (Option RootCleanupRecord) := do
  let found : Option RootCleanupRecord ← Attempt.call (.cleanup (.load id))
    (Except.mapError fun e => cleanupError ("Could not inspect root cleanup record: " ++ e))
  match found with
  | none => pure none
  | some record => do
    Attempt.ofExcept (record.validate.mapError cleanupError)
    pure (some record)

def writeCleanup (record : RootCleanupRecord) : Action ConfirmationError Unit := do
  Attempt.ofExcept (record.validate.mapError cleanupError)
  Attempt.call (.cleanup (.write record))
    (Except.mapError fun e => cleanupError ("Could not commit root cleanup record: " ++ e))

def scheduleOldRootCleanup (transaction : RollbackTransaction) :
    Action ConfirmationError RootCleanupRecord := do
  let now ← utcNow
  let record := RootCleanupRecord.new transaction now
  let existing ← loadCleanup transaction.id
  match existing with
  | some existing => do
    Attempt.ofExcept (ensure (existing.oldRootName == record.oldRootName)
      (cleanupError "Existing root cleanup record targets a different old root"))
    pure existing
  | none => do
    writeCleanup record
    pure record

def maxCleanupRecords : ℕ := 1024

/-- `RootCleanupStore::list`: one invalid record fails the whole listing. -/
def pendingRootCleanups : Action ConfirmationError (List RootCleanupRecord) := do
  let records : List RootCleanupRecord ← Attempt.call (.cleanup .list)
    (Except.mapError fun e => cleanupError ("Could not list root cleanup records: " ++ e))
  Attempt.ofExcept (ensure (records.length ≤ maxCleanupRecords)
    (cleanupError "Root cleanup record count exceeds the safety limit"))
  Attempt.ofExcept (ensure (records.all fun record => record.validate.isOk)
    (cleanupError "Root cleanup record is invalid"))
  pure records

def deferOldRootCleanup (record : RootCleanupRecord) (blocked : List String)
    (diagnostic : String) : Action ConfirmationError Unit := do
  let now ← utcNow
  let record ← Attempt.ofExcept
    ((record.recordDeferred blocked diagnostic now).mapError cleanupError)
  let existing ← loadCleanup record.transactionId
  match existing with
  | none => throw (cleanupError "Root cleanup record disappeared before it could be updated")
  | some _ => writeCleanup record

def completeOldRootCleanup (record : RootCleanupRecord) : Action ConfirmationError Unit :=
  Attempt.call (.cleanup (.remove record.transactionId))
    (Except.mapError fun e => cleanupError ("Could not remove root cleanup record: " ++ e))

end Backend

section OldRoot

def validateOldRootName (value : String) : Except ConfirmationError Unit :=
  if oldRootPrefix.toList.isPrefixOf value.toList then
    let id := String.ofList (value.toList.drop oldRootPrefix.toList.length)
    match Uuid.parseStr id with
    | none =>
      .error ⟨.invalidTransaction, "The root cleanup target has an invalid transaction ID"⟩
    | some parsed =>
      ensure (parsed.hyphenated == id)
        ⟨.invalidTransaction, "The root cleanup target has a non-canonical transaction ID"⟩
  else
    .error ⟨.invalidTransaction, "The root cleanup target has an invalid name"⟩

/-- Deepest descendants first, equal depths in the order of their paths. -/
def descendantOrder (paths : List (List String)) : List (List String) :=
  (paths.dedup.insertionSort fun a b => a ≤ b).insertionSort fun a b => b.length ≤ a.length

/-- Delete the empty descendants and return those that block the deletion. -/
def deleteDescendants (name : String) : List (List String) → Action ConfirmationError (List String)
  | [] => pure []
  | path :: paths => do
    let found : Option Bool ← Attempt.call (.disk (.inspectDescendant name path))
      (Except.mapError fun e =>
        ⟨.commandFailed, "Could not inspect an old-root descendant subvolume: " ++ e⟩)
    match found with
    | none => deleteDescendants name paths
    | some false => do
      let blocked ← deleteDescendants name paths
      pure ("/".intercalate path :: blocked)
    | some true => do
      let _ : Unit ← Attempt.call (.disk (.deleteDescendant name path)) (Except.mapError
        (commandError "deleting an empty descendant subvolume from the old root"))
      deleteDescendants name paths

def cleanupOldRootAt (name : String) : Action ConfirmationError OldRootCleanupOutcome := do
  Attempt.ofExcept (validateOldRootName name)
  let present : Bool ← Attempt.call (.disk (.realDirectory name))
    (Except.mapError fun e =>
      ⟨.commandFailed, "Could not inspect the protected old root: " ++ e⟩)
  if present then
    let descendants : List (List String) ← Attempt.call (.disk (.listDescendants name))
      (Except.mapError (commandError "listing descendant subvolumes below the old root"))
    let blocked ← deleteDescendants name (descendantOrder descendants)
    if blocked.isEmpty then
      let _ : Unit ← Attempt.call (.disk (.delete name))
        (Except.mapError (commandError "deleting the old root subvolume"))
      pure .removed
    else
      pure (.deferred blocked
        "The old root contains non-empty descendant subvolumes; automatic deletion was deferred")
  else
    pure .removed

/-- Mount the top level, clean up, and unmount whatever the result was. -/
def cleanupOldRoot (record : RootCleanupRecord) :
    Action ConfirmationError OldRootCleanupOutcome := do
  let _ : String ← Attempt.call (.boot .layout) (Except.mapError fun _ =>
    ⟨.identityMismatch, "The running root no longer has the SynOS Btrfs layout"⟩)
  let _ : Unit ← Attempt.call (.disk .mount) (Except.mapError
    (commandError "mounting the Btrfs top level for old-root cleanup"))
  let result ← Attempt.outcome (cleanupOldRootAt record.oldRootName)
  let unmount ← Attempt.outcome (Attempt.call (.disk .unmount) (Except.mapError
    (commandError "unmounting the Btrfs top level after old-root cleanup")) :
      Action ConfirmationError Unit)
  match result, unmount with
  | .error error, _ => throw error
  | .ok _, .error error => throw error
  | .ok outcome, .ok () => pure outcome

/-- The loop over the records; the result says whether some deletion is still pending. -/
def retryRecords : List RootCleanupRecord → Action ConfirmationError Bool
  | [] => pure false
  | record :: records => do
    let result ← Attempt.outcome (cleanupOldRoot record)
    match result with
    | .ok .removed => do
      completeOldRootCleanup record
      retryRecords records
    | .ok (.deferred blocked diagnostic) => do
      deferOldRootCleanup record blocked diagnostic
      let _ ← retryRecords records
      pure true
    | .error error => do
      deferOldRootCleanup record [] error.message
      let _ ← retryRecords records
      pure true

def retryPendingRootCleanups : Action ConfirmationError CleanupPass := do
  let records ← pendingRootCleanups
  if records.isEmpty then
    pure .noRecords
  else
    let pending ← retryRecords records
    pure (if pending then .pending else .completed)

end OldRoot

section Engine

def verifyRunningTarget (transaction : RollbackTransaction) : Action ConfirmationError Unit := do
  let boot ← bootId
  Attempt.ofExcept (ensure (boot == transaction.applyingBootId.getD "")
    ⟨.identityMismatch, "Rollback confirmation is running in a different boot"⟩)
  let kernel ← kernelRelease
  Attempt.ofExcept (ensure (kernel == transaction.kernelRelease)
    ⟨.identityMismatch, "The running kernel does not match the rollback transaction"⟩)
  let target ← deployment transaction.targetDeploymentId
  match target.snapshotUuid with
  | none => throw ⟨.invalidTransaction, "The rollback target has no snapshot UUID"⟩
  | some expected => do
    let parent ← currentSnapshotParentUuid
    Attempt.ofExcept (ensure (parent == expected)
      ⟨.identityMismatch, "The running root is not a writable snapshot of the rollback target"⟩)

def finishConfirmed (transaction : RollbackTransaction) : Action ConfirmationError Bool := do
  recordLineageActivation transaction .confirmed
  let _ ← scheduleOldRootCleanup transaction
  clearOnce
  archiveTransaction transaction
  removeTransaction
  regenerateGrub
  let pass ← retryPendingRootCleanups
  pure (pass == .pending)

/-- The end that the reverted and the failed branch share. -/
def finishRecorded (transaction : RollbackTransaction) : Action ConfirmationError Unit := do
  clearOnce
  archiveTransaction transaction
  removeTransaction
  regenerateGrub

def finishReverted (transaction : RollbackTransaction) : Action ConfirmationError Unit := do
  recordLineageActivation transaction .reverted
  finishRecorded transaction

def finishFailed (transaction : RollbackTransaction) : Action ConfirmationError Unit :=
  finishRecorded transaction

def reportConfirmed (transaction : RollbackTransaction) :
    Action ConfirmationError ConfirmationOutcome := do
  let cleanupPending ← finishConfirmed transaction
  pure (if cleanupPending then .confirmedCleanupPending else .confirmed)

def reconcileArmed (transaction : RollbackTransaction) :
    Action ConfirmationError ConfirmationOutcome := do
  let requested ← requestedRollback
  if requested = some transaction.id then
    let now ← utcNow
    let transaction ← Attempt.ofExcept ((transaction.recordFailure
      "The recovery boot reached userspace without entering the initramfs recovery engine"
      now).mapError transactionError)
    updateTransaction transaction
    finishFailed transaction
    pure .failedRecorded
  else
    pure .noAction

def reconcileBooted (transaction : RollbackTransaction) :
    Action ConfirmationError ConfirmationOutcome := do
  verifyRunningTarget transaction
  let now ← utcNow
  let transaction ← Attempt.ofExcept
    ((transaction.transition .confirmed now).mapError transactionError)
  updateTransaction transaction
  reportConfirmed transaction

/-- `ConfirmationEngine::reconcile`. -/
def reconcile : Action ConfirmationError ConfirmationOutcome := do
  let found ← pending
  match found with
  | none => do
    let pass ← retryPendingRootCleanups
    match pass with
    | .noRecords => pure .noAction
    | .completed => pure .cleanupCompleted
    | .pending => pure .cleanupPending
  | some transaction =>
    match transaction.phase with
    | .armed => reconcileArmed transaction
    | .bootedUnconfirmed => reconcileBooted transaction
    | .confirmed => reportConfirmed transaction
    | .reverted => do
      finishReverted transaction
      pure .revertedRecorded
    | .failed => do
      finishFailed transaction
      pure .failedRecorded
    | .preparing | .applying | .reverting => pure .noAction

end Engine

end Confirmation

end RecoveryEngine
