import SynOSStudio.RecoveryEngine.Host

/-!
# The early-boot recovery engine

`execute` runs in the initramfs. It decides from the phase of the pending
transaction whether to apply the target, to revert an interrupted or unconfirmed
restore, or to leave the system alone. Applying and reverting are loops that look
at which of the three root subvolumes exist and take the next step from there.
-/

namespace RecoveryEngine

open InterruptiblePrograms

namespace TransactionStore

def ioError (context : String) (error : String) : TransactionError :=
  ⟨.io, context ++ ": " ++ error⟩

/-- The stored record is validated whenever it is read. -/
def loadPending : Action TransactionError (Option RollbackTransaction) := do
  let found : Option RollbackTransaction ← Attempt.call (.rollback .load)
    (Except.mapError (ioError "Could not inspect rollback transaction"))
  match found with
  | none => pure none
  | some transaction => do
    Attempt.ofExcept transaction.validate
    pure (some transaction)

def create (transaction : RollbackTransaction) : Action TransactionError Unit := do
  Attempt.ofExcept transaction.validate
  Attempt.call (.rollback (.create transaction)) fun
    | .ok true => .ok ()
    | .ok false => .error ⟨.alreadyPending, "Another rollback transaction is already pending"⟩
    | .error e => .error (ioError "Could not atomically commit rollback transaction" e)

def update (transaction : RollbackTransaction) : Action TransactionError Unit := do
  Attempt.ofExcept transaction.validate
  Attempt.call (.rollback (.replace transaction)) fun
    | .ok true => .ok ()
    | .ok false => .error ⟨.notFound, "No rollback transaction is pending"⟩
    | .error e => .error (ioError "Could not atomically commit rollback transaction" e)

def remove : Action TransactionError Unit :=
  Attempt.call (.rollback .remove)
    (Except.mapError (ioError "Could not remove rollback transaction"))

def archive (transaction : RollbackTransaction) : Action TransactionError Unit := do
  Attempt.ofExcept (ensure transaction.phase.isTerminal
    ⟨.invalidTransition, "Only a terminal rollback transaction may be archived"⟩)
  Attempt.ofExcept transaction.validate
  Attempt.call (.rollback (.archive transaction))
    (Except.mapError (ioError "Could not commit rollback history"))

end TransactionStore

namespace DeploymentStore

def idMismatch : String := "Deployment ID does not match its metadata filename"

/-- `load_record`: the message of a record that is missing, unreadable or invalid. -/
def loadRecord (id : DeploymentId) : Action String DeploymentRecord := do
  let found : Option DeploymentRecord ← Attempt.call (.record (.load id))
    (Except.mapError fun e => "Could not inspect metadata: " ++ e)
  match found with
  | none => throw ("Could not inspect metadata: " ++ Disk.noSuchFile)
  | some record => do
    Attempt.ofExcept (record.validate.mapError ModelError.display)
    Attempt.ofExcept (ensure (record.id == id) idMismatch)
    pure record

/-- `discover` reports a store it cannot read as an issue and not as an error. -/
def discover {ε : Type} : Action ε DiscoveryReport :=
  Attempt.call (.record .discover) fun
    | .ok report => .ok report
    | .error e => .ok ⟨[], ["Could not inspect the metadata directory: " ++ e]⟩

end DeploymentStore

inductive RecoveryOutcome where
  | noAction | applied | reverted | failedSafe
  deriving DecidableEq, Repr

inductive RecoveryErrorCode where
  | invalidTransaction | invalidDeployment | unsafeLayout | commandFailed | io
  deriving DecidableEq, Repr

structure RecoveryError where
  code : RecoveryErrorCode
  message : String
  deriving DecidableEq, Repr

namespace Recovery

def topLevel : String := "/run/synos-btrfs-snapshots-manager/top"
def btrfs : String := "/usr/bin/btrfs"

def transactionError (error : TransactionError) : RecoveryError :=
  ⟨.invalidTransaction, error.message⟩

/-- A pure step of the transaction, with its error translated. -/
def attempt (result : Except TransactionError RollbackTransaction) :
    Action RecoveryError RollbackTransaction :=
  Attempt.ofExcept (result.mapError transactionError)

def commandError (error : String) : RecoveryError :=
  ⟨.commandFailed, btrfs ++ ": " ++ error⟩

def realDirectory (name : String) : Action RecoveryError Bool :=
  Attempt.call (.disk (.realDirectory name))
    (Except.mapError fun e => ⟨.io, "Could not inspect " ++ topLevel ++ "/" ++ name ++ ": " ++ e⟩)

def ensureTopLevel : Action RecoveryError Unit :=
  Attempt.call (.disk .inspectTopLevel)
    (Except.mapError fun e => ⟨.io, "Could not inspect " ++ topLevel ++ ": " ++ e⟩)

def snapshot (source : DeploymentId) (destination : String) : Action RecoveryError Unit :=
  Attempt.call (.disk (.snapshotDeployment source destination)) (Except.mapError commandError)

def rename (source destination : String) : Action RecoveryError Unit :=
  Attempt.call (.disk (.rename source destination))
    (Except.mapError fun e => ⟨.io, "Could not rename a recovery subvolume: " ++ e⟩)

def delete (name : String) : Action RecoveryError Unit :=
  Attempt.call (.disk (.delete name)) (Except.mapError commandError)

def sync : Action RecoveryError Unit :=
  Attempt.call (.disk .sync) (Except.mapError commandError)

def ensureDeploymentRoot (id : DeploymentId) : Action RecoveryError Unit := do
  let present : Bool ← Attempt.call (.disk (.deploymentRoot id))
    (Except.mapError fun e => ⟨.io, "Could not inspect the deployment root: " ++ e⟩)
  Attempt.ofExcept (ensure present ⟨.unsafeLayout, id.hyphenated ++ "/root does not exist"⟩)

def identity (id : DeploymentId) : Action RecoveryError String :=
  Attempt.call (.disk (.show id)) fun r =>
    (Except.mapError commandError r).map Prod.fst

def isReadOnly (id : DeploymentId) : Action RecoveryError Bool :=
  Attempt.call (.disk (.isReadOnly id)) (Except.mapError commandError)

def update (transaction : RollbackTransaction) : Action RecoveryError Unit :=
  Attempt.mapError transactionError (TransactionStore.update transaction)

/-- Change the record at the current time and store it. -/
def stored (change : Timestamp → Except TransactionError RollbackTransaction) :
    Action RecoveryError RollbackTransaction := do
  let now ← utcNow
  let transaction ← attempt (change now)
  update transaction
  pure transaction

def persistCheckpoint (transaction : RollbackTransaction) (value : RecoveryCheckpoint) :
    Action RecoveryError RollbackTransaction :=
  stored (transaction.recordCheckpoint value)

def unsafeState (operation : String) (root old new : Bool) : RecoveryError :=
  ⟨.unsafeLayout, s!"Unsafe {operation} subvolume state: root={root}, old={old}, new={new}"⟩

def loadRecord (id : DeploymentId) : Action RecoveryError DeploymentRecord :=
  Attempt.mapError (fun message => ⟨.invalidDeployment, message⟩) (DeploymentStore.loadRecord id)

/-- The confirmation engine on the recovery store must still be the bound one. -/
def validateConfirmArtifact (transaction : RollbackTransaction) : Action RecoveryError Unit := do
  if transaction.recoveryProtocolVersion = recoveryProtocolVersion then
    Attempt.call (.boot .protectedConfirm) (Except.mapError fun e => ⟨.invalidTransaction, e⟩)
    let digest : String ← Attempt.call (.boot .hashConfirm)
      (Except.mapError fun e => ⟨.invalidTransaction, e⟩)
    Attempt.ofExcept (ensure (digest == transaction.recoveryConfirmSha256)
      ⟨.invalidTransaction,
        "The recovery confirmation artifact no longer matches the rollback transaction"⟩)

def validateDeployments (transaction : RollbackTransaction) : Action RecoveryError Unit := do
  validateConfirmArtifact transaction
  let target ← loadRecord transaction.targetDeploymentId
  Attempt.ofExcept (ensure target.canRestore
    ⟨.invalidDeployment, "Rollback target is not a complete, healthy snapshot"⟩)
  let fallback ← loadRecord transaction.fallbackDeploymentId
  Attempt.ofExcept (ensure (fallback.canRestore && fallback.kind == .preRollback)
    ⟨.invalidDeployment, "Rollback fallback is not a complete safety snapshot"⟩)
  ensureDeploymentRoot transaction.targetDeploymentId
  ensureDeploymentRoot transaction.fallbackDeploymentId
  match target.snapshotUuid with
  | none => throw ⟨.invalidDeployment, "Rollback target has no snapshot UUID"⟩
  | some expected => do
    let actual ← identity transaction.targetDeploymentId
    Attempt.ofExcept (ensure (actual == expected)
      ⟨.invalidDeployment, "Rollback target snapshot UUID does not match metadata"⟩)
    let readOnly ← isReadOnly transaction.targetDeploymentId
    Attempt.ofExcept (ensure readOnly
      ⟨.invalidDeployment, "Rollback target snapshot is not read-only"⟩)

/-- Which of `@root`, the old root and the new root exist. -/
def observe (transaction : RollbackTransaction) : Action RecoveryError (Bool × Bool × Bool) := do
  let root ← realDirectory rootName
  let old ← realDirectory transaction.oldRootName
  let new ← realDirectory transaction.newRootName
  pure (root, old, new)

/-- One change of the subvolumes, made durable and recorded. -/
def moved (change : Action RecoveryError Unit) (transaction : RollbackTransaction)
    (value : RecoveryCheckpoint) : Action RecoveryError RollbackTransaction := do
  change
  sync
  persistCheckpoint transaction value

def apply : ℕ → RollbackTransaction → Action RecoveryError RollbackTransaction
  | 0, _ => throw ⟨.unsafeLayout, "Rollback apply did not converge"⟩
  | rounds + 1, transaction => do
    let state ← observe transaction
    match state with
    | (true, false, false) => do
      let transaction ← moved (snapshot transaction.targetDeploymentId transaction.newRootName)
        transaction .writableTargetCreated
      apply rounds transaction
    | (true, false, true) => do
      let transaction ← moved (rename rootName transaction.oldRootName)
        transaction .currentRootProtected
      apply rounds transaction
    | (false, true, true) => do
      let transaction ← moved (rename transaction.newRootName rootName)
        transaction .targetRootActivated
      apply rounds transaction
    | (true, true, false) => pure transaction
    | (root, old, new) => throw (unsafeState "apply" root old new)

def revert : ℕ → RollbackTransaction → Action RecoveryError RollbackTransaction
  | 0, _ => throw ⟨.unsafeLayout, "Rollback revert did not converge"⟩
  | rounds + 1, transaction => do
    let state ← observe transaction
    match state with
    | (true, false, false) => pure transaction
    | (true, false, true) => do
      let transaction ← moved (delete transaction.newRootName)
        transaction .discardedRootDeleted
      revert rounds transaction
    | (false, true, true) => do
      let transaction ← moved (rename transaction.oldRootName rootName)
        transaction .fallbackRootActivated
      revert rounds transaction
    | (true, true, false) => do
      let transaction ← moved (rename rootName transaction.newRootName)
        transaction .restoredRootMovedAside
      revert rounds transaction
    | (false, true, false) => do
      let transaction ← moved (rename transaction.oldRootName rootName)
        transaction .fallbackRootActivated
      revert rounds transaction
    | (root, old, new) => throw (unsafeState "revert" root old new)

/-- The bound of the `for` loop in `apply`. -/
def applyRounds : ℕ := 5

/-- The bound of the `for` loop in `revert`. -/
def revertRounds : ℕ := 6

/-- Change the phase in memory and store it with a checkpoint. -/
def enterPhase (transaction : RollbackTransaction) (phase : RollbackPhase)
    (value : RecoveryCheckpoint) : Action RecoveryError RollbackTransaction := do
  let now ← utcNow
  let transaction ← attempt (transaction.transition phase now)
  persistCheckpoint transaction value

def finishRevert (transaction : RollbackTransaction) : Action RecoveryError RecoveryOutcome := do
  let transaction ← revert revertRounds transaction
  let _ ← enterPhase transaction .reverted .revertedRecorded
  pure .reverted

def revertTransaction (transaction : RollbackTransaction) :
    Action RecoveryError RecoveryOutcome := do
  let transaction ← enterPhase transaction .reverting .revertStarted
  finishRevert transaction

/-- Record a failure before anything was applied. -/
def recordFailure (transaction : RollbackTransaction) (message : String) :
    Action RecoveryError RollbackTransaction :=
  stored (transaction.recordFailure message)

/-- Enter the initramfs protocol: record the entry and the validation checkpoint. -/
def enterInitramfs (transaction : RollbackTransaction) (bootId : String) :
    Action RecoveryError RollbackTransaction := do
  let transaction ← stored (transaction.recordInitramfsEntry bootId)
  persistCheckpoint transaction .validating

/-- Record the apply attempt, apply the target and record the unconfirmed boot. -/
def applyTarget (transaction : RollbackTransaction) (bootId : String) :
    Action RecoveryError RecoveryOutcome := do
  let transaction ← stored (transaction.beginApply bootId)
  let transaction ← apply applyRounds transaction
  let _ ← enterPhase transaction .bootedUnconfirmed .bootedUnconfirmedRecorded
  pure .applied

/-- The armed branch: an unsuccessful validation is recorded before it is reported. -/
def executeArmed (transaction : RollbackTransaction) (requested : Option RollbackId)
    (bootId : String) : Action RecoveryError RecoveryOutcome := do
  if requested ≠ some transaction.id then
    if 0 < transaction.initramfsAttempts ∧ transaction.initramfsBootId ≠ some bootId then
      let _ ← recordFailure transaction
        "A requested recovery boot entered initramfs but did not begin applying the target"
      pure .failedSafe
    else
      pure .noAction
  else if maxApplyAttempts ≤ transaction.initramfsAttempts then
    let _ ← recordFailure transaction
      "The recovery initramfs entry attempt limit was reached before applying the target"
    pure .failedSafe
  else
    let transaction ← enterInitramfs transaction bootId
    let validation ← Attempt.outcome (validateDeployments transaction)
    match validation with
    | .error error => do
      let _ ← recordFailure transaction error.message
      throw error
    | .ok () => applyTarget transaction bootId

def executeApplying (transaction : RollbackTransaction) (requested : Option RollbackId)
    (bootId : String) : Action RecoveryError RecoveryOutcome := do
  if requested = some transaction.id ∧ transaction.applyAttempts < maxApplyAttempts ∧
      transaction.initramfsAttempts < maxApplyAttempts then
    let transaction ← enterInitramfs transaction bootId
    validateDeployments transaction
    applyTarget transaction bootId
  else
    revertTransaction transaction

/-- `RecoveryEngine::execute`. -/
def execute (requested : Option RollbackId) (bootId : String) :
    Action RecoveryError RecoveryOutcome := do
  ensureTopLevel
  let pending ← Attempt.mapError transactionError TransactionStore.loadPending
  match pending with
  | none => pure .noAction
  | some transaction =>
    match transaction.phase with
    | .preparing | .reverted | .confirmed | .failed => pure .noAction
    | .armed => executeArmed transaction requested bootId
    | .applying => executeApplying transaction requested bootId
    | .bootedUnconfirmed =>
      if transaction.applyingBootId = some bootId then pure .noAction
      else revertTransaction transaction
    | .reverting => finishRevert transaction

end Recovery

end RecoveryEngine
