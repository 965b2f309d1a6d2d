import SynOSStudio.RecoveryEngine.Rollback

/-!
# The package hook

The APT hook records one package transaction around each run and takes a snapshot
before and after it, as far as the policy asks for them. It begins a transaction
under the start lock, which it shares with the scheduling of restores.
-/

namespace RecoveryEngine

open InterruptiblePrograms

structure AptSnapshotPolicy where
  snapshotBefore : Bool
  snapshotAfter : Bool

/-- The random identifiers that one call of the hook may draw. -/
structure PackageIds where
  transaction : Uuid
  deployment : DeploymentId

namespace PackageHook

section Backend

def acquireStart : Action String Unit :=
  Attempt.call (.lock .acquireStart) id

/-- A transaction that an earlier run left behind is archived. -/
def archiveStale (stale : PackageTransaction) : Action String Unit :=
  if stale.phase.isTerminal then
    PackageTransactionStore.archive stale
  else do
    let now ← utcNow
    let stale ← Attempt.ofExcept (stale.interrupt "Superseded by a later APT transaction" now)
    PackageTransactionStore.archive stale

def beginTransactionLocked (id : Uuid) : Action String PackageTransaction := do
  let rollback ← Attempt.mapError TransactionError.message TransactionStore.loadPending
  Attempt.ofExcept (ensure rollback.isNone
    "A system restore transaction already owns the recovery boundary")
  let found ← PackageTransactionStore.loadPending
  match found with
  | some stale => archiveStale stale
  | none => pure ()
  let now ← utcNow
  let transaction := PackageTransaction.new id now
  PackageTransactionStore.create transaction
  pure transaction

def beginTransaction (id : Uuid) : Action String PackageTransaction := do
  let report ← Rollback.inspectLayout
  Attempt.ofExcept (ensure (report.support == .supported)
    "The complete SynOS Btrfs layout is unavailable")
  Operations.withLock acquireStart .releaseStart (beginTransactionLocked id)

def validateTransactionLabel (value : String) : Except OperationError Unit :=
  match Uuid.parseStr value with
  | none => .error ⟨.invalidInput, "Package transaction identifier is not a UUID"⟩
  | some parsed => ensure (parsed.hyphenated == value)
      ⟨.invalidInput, "Package transaction identifier is not canonical"⟩

/-- The snapshot request of `create_apt_pre` and `create_apt_post`. -/
def aptRequest (title label : String) (kind : DeploymentKind) : Operations.SnapshotRequest where
  title := title
  reason := "Automatic system snapshot for package transaction " ++ label
  scheduleId := none
  pinned := false
  kind := kind
  completedState := .ready

def createApt (title : String) (kind : DeploymentKind) (label : String) (id : DeploymentId) :
    Action String DeploymentId := do
  let report ← Rollback.inspectLayout
  let record ← Attempt.mapError OperationError.message do
    Attempt.ofExcept (validateTransactionLabel label)
    Operations.createSnapshot report.support id (aptRequest title label kind)
  pure record.id

def createPre (label : String) (id : DeploymentId) : Action String DeploymentId :=
  createApt "Before package changes" .aptPre label id

def createPost (label : String) (id : DeploymentId) : Action String DeploymentId :=
  createApt "After package changes" .aptPost label id

end Backend

section Hooks

def interruptAndArchive (transaction : PackageTransaction) (failure : String) :
    Action String Unit := do
  let now ← utcNow
  let transaction ← Attempt.ofExcept (transaction.interrupt failure now)
  PackageTransactionStore.archive transaction

/-- The pre snapshot of a transaction that has begun. -/
def recordPreSnapshot (policy : AptSnapshotPolicy) (transaction : PackageTransaction)
    (deployment : DeploymentId) : Action String PackageTransaction := do
  let now ← utcNow
  let transaction ← Attempt.ofExcept (transaction.recordPre deployment now)
  if policy.snapshotAfter then
    PackageTransactionStore.update transaction
    pure transaction
  else
    let now ← utcNow
    let transaction ← Attempt.ofExcept (transaction.completeWithoutPost now)
    PackageTransactionStore.archive transaction
    pure transaction

def beforePackages (policy : AptSnapshotPolicy) (ids : PackageIds) :
    Action String (Option PackageTransaction) :=
  if !policy.snapshotBefore && !policy.snapshotAfter then pure none
  else do
    let transaction ← beginTransaction ids.transaction
    if policy.snapshotBefore then
      let created ← Attempt.outcome (createPre transaction.id.hyphenated ids.deployment)
      match created with
      | .ok deployment => do
        let transaction ← recordPreSnapshot policy transaction deployment
        pure (some transaction)
      | .error error => do
        interruptAndArchive transaction error
        throw error
    else
      let now ← utcNow
      let transaction ← Attempt.ofExcept (transaction.skipPre now)
      PackageTransactionStore.update transaction
      pure (some transaction)

/-- Without a post snapshot a waiting transaction ends. -/
def finishWithoutPost (transaction : PackageTransaction) : Action String Unit :=
  if transaction.preDeploymentId.isSome then do
    let now ← utcNow
    let transaction ← Attempt.ofExcept (transaction.completeWithoutPost now)
    PackageTransactionStore.archive transaction
  else
    interruptAndArchive transaction "APT post snapshot was disabled after the transaction began"

def notAwaiting : String :=
  "The APT recovery transaction did not complete its pre-change snapshot"

/-- The post snapshot of the pending transaction. -/
def recordPostSnapshot (transaction : PackageTransaction) (id : DeploymentId) :
    Action String PackageTransaction := do
  let created ← Attempt.outcome (createPost transaction.id.hyphenated id)
  match created with
  | .ok deployment => do
    let now ← utcNow
    let transaction ← Attempt.ofExcept (transaction.recordPost deployment now)
    PackageTransactionStore.archive transaction
    pure transaction
  | .error error => do
    interruptAndArchive transaction error
    throw error

def afterPackages (policy : AptSnapshotPolicy) (id : DeploymentId) :
    Action String (Option PackageTransaction) := do
  let found ← PackageTransactionStore.loadPending
  if policy.snapshotAfter then
    match found with
    | none => throw "No APT recovery transaction is pending"
    | some transaction =>
      if transaction.phase = .awaitingPost then
        let transaction ← recordPostSnapshot transaction id
        pure (some transaction)
      else if transaction.phase.isTerminal then throw notAwaiting
      else
        interruptAndArchive transaction notAwaiting
        throw notAwaiting
  else
    match found with
    | some transaction =>
      if transaction.phase = .awaitingPost then
        finishWithoutPost transaction
        pure none
      else pure none
    | none => pure none

end Hooks

end PackageHook

end RecoveryEngine
