import SynOSStudio.Installer.GuidedGraph

/-!
# Write sets

The operations of a storage graph as they are shown before any of them runs.
-/

namespace Installer

open KeyedLists

inductive StorageObjectKind where
  | disk
  | partition
  | filesystem
  | subvolume
  | efiSystemPartition
  deriving DecidableEq

/-- One operation; `StorageAction` has the values of the graph's actions. -/
structure StorageWriteOperation where
  action : StorageGraphAction
  targetKind : StorageObjectKind
  targetId : String
  displayPath : String
  destructive : Bool
  details : List (String × String)
  deriving DecidableEq

def StorageWriteOperation.detail (item : StorageWriteOperation) (name : String) :
    Except String String :=
  keyed name (item.details.lookup name)

structure StorageWriteSet where
  mode : InstallMode
  diskStableId : String
  operations : List StorageWriteOperation

def partitionPath (disk : String) (number : ℤ) : String :=
  (if disk.startsWith "/dev/nvme" || disk.startsWith "/dev/mmcblk" then disk ++ "p" else disk) ++
    number.repr

def guidedLoaderPath (plan : StoragePlan) : String :=
  let architecture := if plan.architecture = .amd64 then "x64" else "aa64"
  if plan.secureBoot = .enabled then "\\EFI\\SynOS\\shim" ++ architecture ++ ".efi"
  else "\\EFI\\SynOS\\grub" ++ architecture ++ ".efi"

section Operations

variable (casing : Casing) (plan : StoragePlan) (disk : DiskInventory) (diskPath : String)
  (graph : StorageGraph)

/-- The dictionary `existing`. -/
def existingTarget (targetId : String) : Option PartitionInventory :=
  entry (fun item : PartitionInventory =>
    existingPartitionReferenceId (diskId disk.stableId) item.identity.partuuid)
    disk.partitions targetId

/-- The dictionary `new_paths`. -/
def newPath (targetId : String) : Except String String :=
  keyed targetId ((entry PartitionDeclaration.partitionId graph.partitions targetId).map
    fun item => partitionPath diskPath item.number)

def efiOrPartition (isEfi : Bool) : StorageObjectKind :=
  if isEfi then .efiSystemPartition else .partition

def partitionDetails (item : PartitionDeclaration) («end» : ℤ) : List (String × String) :=
  [("name", item.name), ("number", item.number.repr), ("start_mib", item.startMib.repr),
    ("end_mib", «end».repr), ("flags", ",".intercalate item.flags)]

def espDisplayPath (espId : String) : Except String String :=
  match existingTarget disk espId with
  | some partition => .ok partition.identity.path
  | none => newPath diskPath graph espId

/-- The operations of both modes after those on the table and on existing partitions. `mode`
names the mode in errors, `extra` gives further details of a new partition. -/
def creationWrite (mode zram : String) (extra : PartitionDeclaration → List (String × String))
    (boot : BootTarget) (operation : StorageGraphOperation) :
    Except String StorageWriteOperation :=
  let target := operation.targetId
  match operation.action with
  | .createPartition => do
    let item ← keyed target (entry PartitionDeclaration.partitionId graph.partitions target)
    match item.endMib with
    | none => .error (mode ++ " partition has no bounded end")
    | some «end» => do
      let path ← newPath diskPath graph target
      return ⟨.createPartition, efiOrPartition (item.name == "efi-system"), target, path, false,
        partitionDetails item «end» ++ extra item⟩
  | .format => do
    let item ← keyed target (entry FilesystemDeclaration.blockId graph.filesystems target)
    let path ← newPath diskPath graph target
    return ⟨.format, if item.filesystem = .vfat then .efiSystemPartition else .filesystem, target,
      path, true, [("filesystem", item.filesystem.value)]⟩
  | .createSubvolume => do
    let item ← keyed target (entry SubvolumeDeclaration.subvolumeId graph.subvolumes target)
    let path ← newPath diskPath graph item.filesystemId
    return ⟨.createSubvolume, .subvolume, target, path ++ "[" ++ item.name ++ "]", false,
      [("name", item.name), ("mount_point", item.mountPoint),
        ("rollback_with_system", if item.rollbackWithSystem then "true" else "false")]⟩
  | .configureMounts => do
    let path ← newPath diskPath graph target
    return ⟨.configureMounts, .filesystem, target, path, false,
      [("fstab", "/etc/fstab"), ("zram", zram)]⟩
  | .writeBootFiles => do
    let path ← espDisplayPath disk diskPath graph boot.efiFilesystemId
    return ⟨.writeBootFiles, .efiSystemPartition, target, path, false,
      [("directory", boot.vendorDirectory),
        ("shared", if (existingTarget disk target).isSome then "true" else "false")]⟩
  | .updateNvram => do
    let path ← espDisplayPath disk diskPath graph boot.efiFilesystemId
    return ⟨.updateNvram, .efiSystemPartition, target, path, false,
      [("label", "synos"), ("loader", guidedLoaderPath plan)]⟩
  | action => .error ("Unsupported " ++ mode ++ " action: " ++ action.value)

/-- What a write set says about an operation on an existing partition. -/
def existingWrite (action : StorageGraphAction) (target : String) (destructive : Bool)
    (partition : PartitionInventory) (details : List (String × String)) : StorageWriteOperation :=
  ⟨action, efiOrPartition (partition.isEfiSystemPartition casing), target,
    partition.identity.path, destructive, details⟩

def existingDetails (partition : PartitionInventory) : List (String × String) :=
  [("partuuid", partition.identity.partuuid), ("number", partition.identity.number.repr),
    ("start_bytes", partition.identity.startBytes.repr),
    ("size_bytes", partition.identity.sizeBytes.repr), ("filesystem", partition.filesystemType)]

def resizeDetails (resize : PartitionResizeDeclaration) : List (String × String) :=
  [("original_size_bytes", resize.originalSizeBytes.repr),
    ("target_size_bytes", resize.targetSizeBytes.repr),
    ("reclaimed_bytes", (resize.originalSizeBytes - resize.targetSizeBytes).repr)]

def manualWrite (boot : BootTarget) (operation : StorageGraphOperation) :
    Except String StorageWriteOperation :=
  let target := operation.targetId
  if operation.action ∈ [.preserve, .deletePartition, .resizePartition] then do
    let partition ← keyed target (existingTarget disk target)
    let resize := entry PartitionResizeDeclaration.targetReferenceId graph.partitionResizes target
    return existingWrite casing operation.action target (operation.action != .preserve) partition
      (existingDetails partition ++ (resize.map resizeDetails).getD [])
  else if operation.action ∈ [.replacePartitionTable, .modifyPartitionTable] then
    .ok ⟨operation.action, .disk, target, diskPath, true, [("table", "gpt")]⟩
  else
    creationWrite plan disk diskPath graph "Manual" "/etc/default/synos-zram" (fun _ => []) boot
      operation

def guidedWrite (boot : BootTarget) (operation : StorageGraphOperation) :
    Except String StorageWriteOperation :=
  let target := operation.targetId
  match operation.action with
  | .preserve => do
    let partition ← keyed target (existingTarget disk target)
    return existingWrite casing .preserve target false partition
      [("partuuid", partition.identity.partuuid),
        ("start_bytes", partition.identity.startBytes.repr),
        ("size_bytes", partition.identity.sizeBytes.repr)]
  | .modifyPartitionTable => do
    let extent ← keyed "StopIteration" (referencesOf graph .freeExtent).head?
    return ⟨.modifyPartitionTable, .disk, target, diskPath, true,
      [("table", graph.partitionTable), ("free_extent_id", extent.stableId),
        ("start_bytes", extent.startBytes.repr),
        ("size_bytes", extent.expectedSizeBytes.repr)]⟩
  | _ =>
    creationWrite plan disk diskPath graph "Coexistence" "/etc/systemd/zram-generator.conf"
      (fun item => [("parent_free_extent", item.parentReferenceId)]) boot operation

end Operations

section Builders

variable (casing : Casing) (plan : StoragePlan) (diskPath : String)

def firstBootTarget (graph : StorageGraph) : Except String BootTarget :=
  match graph.bootTargets with
  | [] => .error "tuple index out of range"
  | boot :: _ => .ok boot

def writesOf (write : StorageGraph → BootTarget → StorageGraphOperation →
    Except String StorageWriteOperation) : Except String (List StorageWriteOperation) :=
  match plan.graph with
  | none => .error "AssertionError"
  | some graph => do
    let boot ← firstBootTarget graph
    graph.operations.mapM (write graph boot)

/-- Describe every allowed manual write after a fresh topology check. -/
def buildManualStorageWriteSet (inventory : StorageInventory) : Except String StorageWriteSet := do
  raiseIf (plan.mode != .manual) "Plan is not manual partitioning"
  let disk ← validateManualStorageGraph casing plan inventory
  let operations ← writesOf plan (manualWrite casing plan disk diskPath)
  return ⟨.manual, disk.stableId, operations⟩

def buildGuidedCoexistenceWriteSet (extentId : FreeExtent → String)
    (inventory : StorageInventory) : Except String StorageWriteSet := do
  raiseIf (plan.mode != .guidedCoexistence) "Plan is not guided coexistence"
  let disk ← validateGuidedCoexistenceGraph extentId casing plan inventory
  let operations ← writesOf plan (guidedWrite casing plan disk diskPath)
  return ⟨.guidedCoexistence, disk.stableId, operations⟩

end Builders

end Installer
