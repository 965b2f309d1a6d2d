import SynOSStudio.RecoveryEngine.Recovery

/-!
# Snapshot operations

Creating, verifying and deleting system snapshots. A creation writes its record
before the snapshot exists and again when its identity is complete; a failed
creation removes the snapshot and keeps a record of the failure. A deletion first
marks the record, so that a later call can resume it.
-/

namespace RecoveryEngine

open InterruptiblePrograms

inductive LayoutSupport where
  | supported | otherFilesystem | incompatibleBtrfs | unavailable
  deriving DecidableEq, Repr

inductive OperationErrorCode where
  | busy | unsupportedLayout | invalidInput | unsafePath | notFound | isProtected | io
  | commandFailed | invalidIdentity | insufficientSpace
  deriving DecidableEq, Repr

structure OperationError where
  code : OperationErrorCode
  message : String
  deriving DecidableEq, Repr

namespace PackageTransactionStore

/-- The stored record is validated whenever it is read. -/
def loadPending : Action String (Option PackageTransaction) := do
  let found : Option PackageTransaction ← Attempt.call (.package .load) id
  match found with
  | none => pure none
  | some transaction => do
    Attempt.ofExcept transaction.validate
    pure (some transaction)

def create (transaction : PackageTransaction) : Action String Unit := do
  Attempt.ofExcept transaction.validate
  Attempt.call (.package (.create transaction)) fun
    | .ok true => .ok ()
    | .ok false => .error "Another package transaction is already pending"
    | .error e => .error e

def update (transaction : PackageTransaction) : Action String Unit := do
  Attempt.ofExcept transaction.validate
  Attempt.call (.package (.replace transaction)) fun
    | .ok true => .ok ()
    | .ok false => .error "No package transaction is pending"
    | .error e => .error e

/-- The pending record is written once more and then renamed into the history. -/
def archive (transaction : PackageTransaction) : Action String Unit := do
  Attempt.ofExcept (ensure transaction.phase.isTerminal
    "Only terminal package transactions can be archived")
  update transaction
  Attempt.call (.package (.archive transaction)) id

end PackageTransactionStore

namespace Operations

variable {α : Type}

section Steps

def commandError (error : String) : OperationError :=
  ⟨.commandFailed, Recovery.btrfs ++ ": " ++ error⟩

def ioError (context error : String) : OperationError :=
  ⟨.io, context ++ ": " ++ error⟩

def lineageError (error : LineageError) : OperationError :=
  ⟨match error.code with
    | .invalidRecord => .invalidIdentity
    | .io => .io, "Could not update system history: " ++ error.message⟩

def ensureSupportedLayout (layout : LayoutSupport) : Action OperationError Unit :=
  Attempt.ofExcept (ensure (layout == .supported)
    ⟨.unsupportedLayout, "The complete SynOS Btrfs layout is required"⟩)

def ensureStoreDirectories : Action OperationError Unit :=
  Attempt.call (.lock .storeDirectories)
    (Except.mapError (ioError "Could not inspect the recovery store"))

def ensureTransactionReserve : Action OperationError Unit :=
  Attempt.call (.lock .freeSpace) (Except.mapError fun e => ⟨.insufficientSpace, e⟩)

/-- The operation lock is only tried. -/
def acquireLock : Action OperationError Unit :=
  Attempt.call (.lock .acquireOperation) fun
    | .ok true => .ok ()
    | .ok false => .error ⟨.busy,
        "Could not lock the recovery store: Resource temporarily unavailable (os error 11)"⟩
    | .error e => .error (ioError "Could not open the operation lock" e)

/-- Run under a lock, which is released whatever the result is. -/
def withLock {ε : Type} (acquire : Action ε Unit) (release : LockOp) (body : Action ε α) :
    Action ε α := do
  acquire
  let result ← Attempt.outcome body
  let _ : Unit ← Attempt.call (.lock release) fun _ => .ok ()
  Attempt.ofExcept result

def withOperationLock (body : Action OperationError α) : Action OperationError α :=
  withLock acquireLock .releaseOperation body

def acquireStart : Action OperationError Unit :=
  Attempt.call (.lock .acquireStart) fun
    | .ok _ => .ok ()
    | .error e => .error ⟨.busy, "Could not coordinate system snapshot deletion: " ++ e⟩

def acquireBrowse (id : DeploymentId) : Action OperationError Unit :=
  Attempt.call (.lock (.acquireBrowse id)) fun
    | .ok _ => .ok ()
    | .error e => .error (ioError "Could not coordinate with snapshot browsing" e)

/-- A record that cannot be read is not found, an invalid one has no identity. -/
def loadRecord (id : DeploymentId) : Action OperationError DeploymentRecord := do
  let found : Option DeploymentRecord ← Attempt.call (.record (.load id))
    (Except.mapError fun e => ⟨.notFound, "Could not inspect metadata: " ++ e⟩)
  match found with
  | none => throw ⟨.notFound, "Could not inspect metadata: " ++ Disk.noSuchFile⟩
  | some record => do
    Attempt.ofExcept (record.validate.mapError fun e => ⟨.invalidIdentity, e.display⟩)
    Attempt.ofExcept (ensure (record.id == id) ⟨.invalidIdentity, DeploymentStore.idMismatch⟩)
    pure record

/-- `write_record_atomic`. -/
def writeRecord (record : DeploymentRecord) : Action OperationError Unit := do
  Attempt.ofExcept (record.validate.mapError fun e => ⟨.invalidIdentity, e.display⟩)
  Attempt.call (.record (.write record))
    (Except.mapError (ioError "Could not atomically commit deployment metadata"))

def removeRecord (id : DeploymentId) : Action OperationError Unit :=
  Attempt.call (.record (.remove id))
    (Except.mapError (ioError "Could not remove deployment metadata"))

def mutateLineage (mutation : LineageMutation) : Action OperationError SystemLineage :=
  Attempt.call (.lineage mutation) fun
    | .ok (.ok lineage) => .ok lineage
    | .ok (.error e) => .error (lineageError e)
    | .error e => .error (lineageError ⟨.io, e⟩)

def syncBtrfs : Action OperationError Unit :=
  Attempt.call (.disk .sync) (Except.mapError commandError)

def snapshotIdentity (id : DeploymentId) : Action OperationError (String × Option String) :=
  Attempt.call (.disk (.show id)) (Except.mapError commandError)

def readKernelRelease : Action OperationError String := do
  let text : String ← Attempt.call (.boot .kernelRelease)
    (Except.mapError (ioError "Could not read the kernel release"))
  let release := String.ofList (trimmed text.toList)
  Attempt.ofExcept (ensure (safeKernelRelease release)
    ⟨.invalidIdentity, "Kernel release contains unsafe characters"⟩)
  pure release

def hashFile (id : DeploymentId) (path : String) : Action OperationError String :=
  Attempt.call (.disk (.hashFile id path)) (Except.mapError (ioError ("Could not read " ++ path)))

def hashOptionalFile (id : DeploymentId) (path : String) : Action OperationError (Option String) :=
  Attempt.call (.disk (.hashOptionalFile id path))
    (Except.mapError (ioError ("Could not inspect " ++ path)))

def deploymentRoot (id : DeploymentId) : Action OperationError Bool :=
  Attempt.call (.disk (.deploymentRoot id))
    (Except.mapError (ioError "Could not inspect the deployment root"))

def deleteSnapshot (id : DeploymentId) : Action OperationError Unit :=
  Attempt.call (.disk (.deleteSnapshot id)) (Except.mapError commandError)

def removeDirectory (id : DeploymentId) : Action OperationError Unit :=
  Attempt.call (.disk (.removeDirectory id))
    (Except.mapError (ioError "Could not remove the deployment directory"))

/-- Delete the snapshot, if it exists, and its directory. -/
def removeDeployment (id : DeploymentId) : Action OperationError Unit := do
  let present ← deploymentRoot id
  if present then
    deleteSnapshot id
    removeDirectory id
  else
    removeDirectory id

end Steps

section Create

/-- What the caller of `create_snapshot` chooses. -/
structure SnapshotRequest where
  title : String
  reason : String
  scheduleId : Option String
  pinned : Bool
  kind : DeploymentKind
  completedState : DeploymentState

def mokCertificate : String := "var/lib/shim-signed/mok/MOK.der"
def dpkgStatus : String := "var/lib/dpkg/status"
def initramfsPath (kernel : String) : String := "boot/initrd.img-" ++ kernel
def kernelPath (kernel : String) : String := "boot/vmlinuz-" ++ kernel

def creatingRecord (id : DeploymentId) (request : SnapshotRequest) (now : Timestamp)
    (parent : Option DeploymentId) : DeploymentRecord where
  schemaVersion := deploymentSchemaVersion
  id := id
  parentId := parent
  kind := request.kind
  state := .creating
  createdAt := now
  title := request.title
  reason := request.reason
  scheduleId := request.scheduleId
  snapshotUuid := none
  snapshotParentUuid := none
  kernelRelease := none
  initramfsSha256 := none
  bootArtifactSha256 := none
  dpkgStatusSha256 := none
  mokCertificateSha256 := none
  pinned := request.pinned
  failure := none

/-- A step of the capture; when it fails, the record as filled so far is kept. -/
def step (record : DeploymentRecord) (x : Action OperationError α) :
    Action (OperationError × DeploymentRecord) α :=
  Attempt.mapError (fun e => (e, record)) x

/-- The closure of `create_snapshot_locked`, from the new directory to the lineage. -/
def capture (record : DeploymentRecord) (completedState : DeploymentState) :
    Action (OperationError × DeploymentRecord) DeploymentRecord := do
  let id := record.id
  let _ : Unit ← step record (Attempt.call (.disk (.createDirectory id))
    (Except.mapError (ioError "Could not create the deployment directory")))
  let _ : Unit ← step record (Attempt.call (.disk (.snapshotSystem id))
    (Except.mapError commandError))
  let identity ← step record (snapshotIdentity id)
  let record := { record with
    snapshotUuid := some identity.1
    snapshotParentUuid := identity.2 }
  step record syncBtrfs
  let kernel ← step record readKernelRelease
  let record := { record with kernelRelease := some kernel }
  let initramfs ← step record (hashFile id (initramfsPath kernel))
  let record := { record with initramfsSha256 := some initramfs }
  let artifact ← step record (hashFile id (kernelPath kernel))
  let record := { record with bootArtifactSha256 := some artifact }
  let dpkg ← step record (hashFile id dpkgStatus)
  let record := { record with dpkgStatusSha256 := some dpkg }
  let mok ← step record (hashOptionalFile id mokCertificate)
  let record := { record with mokCertificateSha256 := mok }
  step record (Attempt.ofExcept (ensure (record.state.canTransitionTo completedState)
    ⟨.invalidIdentity, "System snapshot cannot enter its completed state"⟩))
  let record := { record with state := completedState }
  step record (writeRecord record)
  step record syncBtrfs
  let _ ← step record (mutateLineage (.recordRecoveryPoint record))
  pure record

def cleanupSnapshot (id : DeploymentId) : Action OperationError Unit := do
  removeDeployment id
  syncBtrfs

def maxFailureMessage : ℕ := 2000

/-- The record of a failed creation. -/
def failedRecord (record : DeploymentRecord) (error : OperationError)
    (cleanup : Except OperationError Unit) : DeploymentRecord :=
  { record with
    state := .incomplete
    snapshotUuid := none
    snapshotParentUuid := none
    failure := some (String.ofList ((match cleanup with
      | .error problem => error.message ++ "; cleanup also failed: " ++ problem.message
      | .ok () => error.message).toList.take maxFailureMessage)) }

def createSnapshotLocked (id : DeploymentId) (request : SnapshotRequest)
    (deployments : DiscoveryReport) : Action OperationError DeploymentRecord := do
  let lineage ← mutateLineage (.ensureInitialized deployments.deployments)
  let now ← utcNow
  let record := creatingRecord id request now lineage.currentHeadId
  Attempt.ofExcept (record.validate.mapError fun e => ⟨.invalidInput, e.display⟩)
  writeRecord record
  let result ← Attempt.outcome (capture record request.completedState)
  match result with
  | .ok record => pure record
  | .error (error, record) => do
    let cleanup ← Attempt.outcome (cleanupSnapshot id)
    let metadata ← Attempt.outcome (writeRecord (failedRecord record error cleanup))
    throw (match metadata with
      | .error problem => ⟨error.code,
          error.message ++ "; could not persist failure state: " ++ problem.message⟩
      | .ok () => error)

/-- `create_snapshot`, with the random identifier as an argument. -/
def createSnapshot (layout : LayoutSupport) (id : DeploymentId) (request : SnapshotRequest) :
    Action OperationError DeploymentRecord := do
  ensureSupportedLayout layout
  ensureTransactionReserve
  ensureStoreDirectories
  withOperationLock do
    let deployments ← DeploymentStore.discover
    createSnapshotLocked id request deployments

end Create

section Verify

def identityMismatch (identity : String) : OperationError :=
  ⟨.invalidIdentity, "System snapshot " ++ identity ++ " does not match its recorded identity"⟩

def verifyDigest (identity : String) (expected : Option String) (actual : String) :
    Action OperationError Unit :=
  Attempt.ofExcept (ensure (expected == some actual) (identityMismatch identity))

def verifyReadOnly (id : DeploymentId) : Action OperationError Unit := do
  let readOnly : Bool ← Attempt.call (.disk (.isReadOnly id)) (Except.mapError commandError)
  Attempt.ofExcept (ensure readOnly (identityMismatch "read-only snapshot property"))

/-- The body of `verify`, which runs under the operation lock. -/
def verifyLocked (id : DeploymentId) : Action OperationError DeploymentRecord := do
  let record ← loadRecord id
  Attempt.ofExcept (ensure record.canRestore
    ⟨.invalidIdentity, "This deployment is not in a restorable state"⟩)
  match record.snapshotUuid with
  | none => throw ⟨.invalidIdentity, "Recovery metadata has no snapshot UUID"⟩
  | some expected => do
    let actual ← snapshotIdentity id
    Attempt.ofExcept (ensure (actual.1 == expected) (identityMismatch "Btrfs snapshot UUID"))
    Attempt.ofExcept (ensure (actual.2 == record.snapshotParentUuid)
      (identityMismatch "Btrfs parent UUID"))
    verifyReadOnly id
    match record.kernelRelease with
    | none => throw ⟨.invalidIdentity, "Recovery metadata has no kernel release"⟩
    | some kernel => do
      let initramfs ← hashFile id (initramfsPath kernel)
      verifyDigest "initramfs" record.initramfsSha256 initramfs
      let artifact ← hashFile id (kernelPath kernel)
      verifyDigest "kernel boot artifact" record.bootArtifactSha256 artifact
      let dpkg ← hashFile id dpkgStatus
      verifyDigest "dpkg database" record.dpkgStatusSha256 dpkg
      let mok ← hashOptionalFile id mokCertificate
      Attempt.ofExcept (ensure (mok == record.mokCertificateSha256)
        (identityMismatch "MOK certificate"))
      pure record

def verify (layout : LayoutSupport) (id : DeploymentId) :
    Action OperationError DeploymentRecord := do
  ensureSupportedLayout layout
  ensureStoreDirectories
  withOperationLock (verifyLocked id)

end Verify

section Delete

def referencedBy (id : DeploymentId) (transaction : RollbackTransaction) : Bool :=
  transaction.targetDeploymentId == id || transaction.fallbackDeploymentId == id

def packageReferencedBy (id : DeploymentId) (transaction : PackageTransaction) : Bool :=
  transaction.preDeploymentId == some id || transaction.postDeploymentId == some id

def ensureNotTransactionReferenced (id : DeploymentId) : Action OperationError Unit := do
  let rollback ← Attempt.mapError (fun e : TransactionError =>
    ⟨.invalidIdentity, "Could not validate pending rollback references: " ++ e.message⟩)
    TransactionStore.loadPending
  Attempt.ofExcept (ensure (!rollback.any (referencedBy id))
    ⟨.isProtected, "This system snapshot is referenced by a pending rollback"⟩)
  let package ← Attempt.mapError (fun e : String =>
    ⟨.invalidIdentity, "Could not validate pending package references: " ++ e⟩)
    PackageTransactionStore.loadPending
  Attempt.ofExcept (ensure (!package.any (packageReferencedBy id))
    ⟨.isProtected, "This system snapshot is referenced by a pending package transaction"⟩)

/-- The kinds that automatic cleanup may delete. -/
def ordinary : DeploymentKind → Bool
  | .manual | .automatic | .aptPre | .aptPost | .preRollback => true
  | _ => false

/-- The checks that only `delete_automatic` makes. -/
def ensureAutomatic (record : DeploymentRecord) (minimum : ℕ) : Action OperationError Unit := do
  Attempt.ofExcept (ensure (ordinary record.kind)
    ⟨.isProtected, "Automatic cleanup may delete only ordinary system snapshots"⟩)
  Attempt.ofExcept (ensure (!record.pinned)
    ⟨.isProtected, "Permanently retained system snapshots cannot be cleaned automatically"⟩)
  let discovery ← DeploymentStore.discover
  Attempt.ofExcept (ensure discovery.issues.isEmpty ⟨.invalidIdentity,
    "Automatic cleanup stopped because recovery metadata has unresolved issues"⟩)
  let restorable := (discovery.deployments.filter DeploymentRecord.canRestore).length
  Attempt.ofExcept (ensure (!(record.canRestore && restorable ≤ minimum))
    ⟨.isProtected, "Automatic cleanup would remove the last known-good system snapshot"⟩)

/-- Mark a record that is not yet being deleted. -/
def beginDeleting (record : DeploymentRecord) (minimum : Option ℕ) :
    Action OperationError Unit := do
  match minimum with
  | some minimum => ensureAutomatic record minimum
  | none => pure ()
  Attempt.ofExcept (ensure record.canDelete
    ⟨.isProtected, "This system snapshot is pinned or protects a boot transaction"⟩)
  Attempt.ofExcept (ensure (record.state.canTransitionTo .deleting)
    ⟨.isProtected, "This system snapshot cannot enter the deleting state"⟩)
  writeRecord { record with state := .deleting }

/-- From the snapshot to the metadata, in an order that a later call can resume. -/
def finishDeleting (id : DeploymentId) : Action OperationError Unit := do
  removeDeployment id
  let deployments ← DeploymentStore.discover
  let _ ← mutateLineage (.ensureInitialized deployments.deployments)
  let now ← utcNow
  let _ ← mutateLineage (.markSnapshotRemoved id now)
  removeRecord id
  syncBtrfs

/-- The body of a deletion, which runs under the three locks. -/
def deleteLocked (id : DeploymentId) (minimum : Option ℕ) : Action OperationError Unit := do
  acquireBrowse id
  let record ← loadRecord id
  ensureNotTransactionReferenced id
  if record.state = .deleting then
    finishDeleting id
  else
    beginDeleting record minimum
    finishDeleting id

def deleteWithRestorableFloor (layout : LayoutSupport) (id : DeploymentId)
    (minimum : Option ℕ) : Action OperationError Unit := do
  ensureSupportedLayout layout
  ensureStoreDirectories
  withOperationLock (withLock acquireStart .releaseStart (deleteLocked id minimum))

def delete (layout : LayoutSupport) (id : DeploymentId) : Action OperationError Unit :=
  deleteWithRestorableFloor layout id none

def deleteAutomatic (layout : LayoutSupport) (id : DeploymentId) (minimum : ℕ) :
    Action OperationError Unit :=
  deleteWithRestorableFloor layout id (some minimum)

end Delete

end Operations

end RecoveryEngine
