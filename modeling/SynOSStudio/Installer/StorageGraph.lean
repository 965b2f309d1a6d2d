import SynOSStudio.StrictDocuments.Records

/-!
# The storage graph

The records of the storage graph schema, `to_dict` and `from_dict` with its decoder for
each record.
-/

namespace Installer

open StrictDocuments

variable {F : Type}

/-! ## Checks of a decoder -/

def mapping (path : String) : Json F → Except DecodeError (List (String × Json F))
  | .object members => .ok members
  | _ => .error (.typeError s!"{path} must be an object")

def list (path : String) : Json F → Except DecodeError (List (Json F))
  | .array items => .ok items
  | _ => .error (.typeError s!"{path} must be an array")

def string (path : String) : Json F → Except DecodeError String
  | .text s => .ok s
  | _ => .error (.typeError s!"{path} must be a string")

def integer (path : String) : Json F → Except DecodeError ℤ
  | .integer n => .ok n
  | _ => .error (.typeError s!"{path} must be an integer")

def boolean (path : String) : Json F → Except DecodeError Bool
  | .bool b => .ok b
  | _ => .error (.typeError s!"{path} must be a boolean")

def optional {α : Type} (read : Json F → Except DecodeError α) :
    Json F → Except DecodeError (Option α)
  | .null => .ok none
  | value => some <$> read value

/-- The items of a list, each read with its number. -/
def listOf {α : Type} (path : String) (read : Json F → ℕ → Except DecodeError α) (value : Json F) :
    Except DecodeError (List α) :=
  list path value >>= readItems read

def sorted (names : List String) : List String :=
  names.insertionSort (· ≤ ·)

def exactFields (members : List (String × Json F)) (expected : List String) (path : String) :
    Except DecodeError Unit :=
  match sorted ((members.map Prod.fst).filter fun name => name ∉ expected) with
  | unknown :: _ => .error (.valueError s!"Unknown field in {path}: {unknown}")
  | [] =>
    match sorted (expected.filter fun name => name ∉ members.map Prod.fst) with
    | missing :: _ => .error (.valueError s!"Missing field in {path}: {missing}")
    | [] => .ok ()

/-- `_mapping` with `_exact_fields`: the fields of an object that has exactly these. -/
def exactly (path : String) (expected : List String) (value : Json F) :
    Except DecodeError (String → Json F) := do
  let item ← mapping path value
  exactFields item expected path
  return field item

/-! ## Enumerations -/

inductive StorageGraphMode where
  | eraseDisk
  | guidedCoexistence
  | manual
  deriving DecidableEq

def StorageGraphMode.value : StorageGraphMode → String
  | .eraseDisk => "erase-disk"
  | .guidedCoexistence => "guided-coexistence"
  | .manual => "manual"

def storageGraphMode : StrEnum StorageGraphMode where
  name := "StorageGraphMode"
  members := [.eraseDisk, .guidedCoexistence, .manual]
  value := StorageGraphMode.value
  found a := by cases a <;> decide +kernel

inductive BlockReferenceKind where
  | disk
  | partition
  | freeExtent
  | mdraid
  | luks
  | lvm
  | btrfsFilesystem
  deriving DecidableEq

def BlockReferenceKind.value : BlockReferenceKind → String
  | .disk => "disk"
  | .partition => "partition"
  | .freeExtent => "free-extent"
  | .mdraid => "mdraid"
  | .luks => "luks"
  | .lvm => "lvm"
  | .btrfsFilesystem => "btrfs-filesystem"

def blockReferenceKind : StrEnum BlockReferenceKind where
  name := "BlockReferenceKind"
  members := [.disk, .partition, .freeExtent, .mdraid, .luks, .lvm, .btrfsFilesystem]
  value := BlockReferenceKind.value
  found a := by cases a <;> decide +kernel

inductive GraphFilesystem where
  | btrfs
  | ext4
  | xfs
  | f2fs
  | vfat
  | swap
  | ntfs
  deriving DecidableEq

def GraphFilesystem.value : GraphFilesystem → String
  | .btrfs => "btrfs"
  | .ext4 => "ext4"
  | .xfs => "xfs"
  | .f2fs => "f2fs"
  | .vfat => "vfat"
  | .swap => "swap"
  | .ntfs => "ntfs"

def graphFilesystem : StrEnum GraphFilesystem where
  name := "GraphFilesystem"
  members := [.btrfs, .ext4, .xfs, .f2fs, .vfat, .swap, .ntfs]
  value := GraphFilesystem.value
  found a := by cases a <;> decide +kernel

inductive StorageGraphAction where
  | preserve
  | deletePartition
  | replacePartitionTable
  | modifyPartitionTable
  | resizePartition
  | createPartition
  | format
  | createSubvolume
  | configureMounts
  | writeBiosBootloader
  | writeBootFiles
  | writeFallbackBootFiles
  | updateNvram
  deriving DecidableEq

def StorageGraphAction.value : StorageGraphAction → String
  | .preserve => "preserve"
  | .deletePartition => "delete-partition"
  | .replacePartitionTable => "replace-partition-table"
  | .modifyPartitionTable => "modify-partition-table"
  | .resizePartition => "resize-partition"
  | .createPartition => "create-partition"
  | .format => "format"
  | .createSubvolume => "create-subvolume"
  | .configureMounts => "configure-mounts"
  | .writeBiosBootloader => "write-bios-bootloader"
  | .writeBootFiles => "write-boot-files"
  | .writeFallbackBootFiles => "write-fallback-boot-files"
  | .updateNvram => "update-nvram"

def storageGraphAction : StrEnum StorageGraphAction where
  name := "StorageGraphAction"
  members := [.preserve, .deletePartition, .replacePartitionTable, .modifyPartitionTable,
    .resizePartition, .createPartition, .format, .createSubvolume, .configureMounts,
    .writeBiosBootloader, .writeBootFiles, .writeFallbackBootFiles, .updateNvram]
  value := StorageGraphAction.value
  found a := by cases a <;> decide +kernel

inductive StorageCapability where
  | bootable
  | systemRollback
  | snapshotManagement
  deriving DecidableEq

def StorageCapability.value : StorageCapability → String
  | .bootable => "bootable"
  | .systemRollback => "system-rollback"
  | .snapshotManagement => "snapshot-management"

def storageCapability : StrEnum StorageCapability where
  name := "StorageCapability"
  members := [.bootable, .systemRollback, .snapshotManagement]
  value := StorageCapability.value
  found a := by cases a <;> decide +kernel

inductive MountRole where
  | root
  | efi
  | home
  | log
  | snapshots
  | containers
  | virtualMachines
  deriving DecidableEq

def MountRole.value : MountRole → String
  | .root => "root"
  | .efi => "efi"
  | .home => "home"
  | .log => "log"
  | .snapshots => "snapshots"
  | .containers => "containers"
  | .virtualMachines => "virtual-machines"

def mountRole : StrEnum MountRole where
  name := "MountRole"
  members := [.root, .efi, .home, .log, .snapshots, .containers, .virtualMachines]
  value := MountRole.value
  found a := by cases a <;> decide +kernel

/-! ## Records -/

structure BlockReference where
  referenceId : String
  kind : BlockReferenceKind
  stableId : String
  parentReferenceId : String
  expectedSizeBytes : ℤ
  startBytes : ℤ
  topologyDigest : String
  deriving DecidableEq

structure PartitionDeclaration where
  partitionId : String
  parentReferenceId : String
  number : ℤ
  name : String
  startMib : ℤ
  endMib : Option ℤ
  flags : List String
  deriving DecidableEq

/-- An authorized new size for an existing filesystem partition. -/
structure PartitionResizeDeclaration where
  targetReferenceId : String
  filesystem : GraphFilesystem
  originalSizeBytes : ℤ
  targetSizeBytes : ℤ
  deriving DecidableEq

structure FilesystemDeclaration where
  filesystemId : String
  blockId : String
  filesystem : GraphFilesystem
  label : String
  deriving DecidableEq

structure SubvolumeDeclaration where
  subvolumeId : String
  filesystemId : String
  name : String
  mountPoint : String
  rollbackWithSystem : Bool
  deriving DecidableEq

structure MountDeclaration where
  sourceId : String
  targetPath : String
  role : MountRole
  deriving DecidableEq

structure BootTarget where
  efiFilesystemId : String
  biosDiskReferenceId : String
  vendorDirectory : String
  fallbackPath : String
  deriving DecidableEq

structure StorageGraphOperation where
  action : StorageGraphAction
  targetId : String
  deriving DecidableEq

structure StorageGraph where
  schemaVersion : ℤ
  mode : StorageGraphMode
  inventoryDigest : String
  partitionTable : String
  blockReferences : List BlockReference
  partitions : List PartitionDeclaration
  partitionResizes : List PartitionResizeDeclaration
  filesystems : List FilesystemDeclaration
  subvolumes : List SubvolumeDeclaration
  mounts : List MountDeclaration
  bootTargets : List BootTarget
  operations : List StorageGraphOperation
  requestedCapabilities : List StorageCapability
  deriving DecidableEq

/-! ## Writing -/

def BlockReference.toDict (item : BlockReference) : Written F :=
  .dict [("reference_id", .text item.referenceId),
    ("kind", .member (blockReferenceKind.value item.kind)),
    ("stable_id", .text item.stableId),
    ("parent_reference_id", .text item.parentReferenceId),
    ("expected_size_bytes", .integer item.expectedSizeBytes),
    ("start_bytes", .integer item.startBytes),
    ("topology_digest", .text item.topologyDigest)]

def PartitionDeclaration.toDict (item : PartitionDeclaration) : Written F :=
  .dict [("partition_id", .text item.partitionId),
    ("parent_reference_id", .text item.parentReferenceId),
    ("number", .integer item.number),
    ("name", .text item.name),
    ("start_mib", .integer item.startMib),
    ("end_mib", .ofOption .integer item.endMib),
    ("flags", .list (item.flags.map .text))]

def PartitionResizeDeclaration.toDict (item : PartitionResizeDeclaration) : Written F :=
  .dict [("target_reference_id", .text item.targetReferenceId),
    ("filesystem", .member (graphFilesystem.value item.filesystem)),
    ("original_size_bytes", .integer item.originalSizeBytes),
    ("target_size_bytes", .integer item.targetSizeBytes)]

def FilesystemDeclaration.toDict (item : FilesystemDeclaration) : Written F :=
  .dict [("filesystem_id", .text item.filesystemId),
    ("block_id", .text item.blockId),
    ("filesystem", .member (graphFilesystem.value item.filesystem)),
    ("label", .text item.label)]

def SubvolumeDeclaration.toDict (item : SubvolumeDeclaration) : Written F :=
  .dict [("subvolume_id", .text item.subvolumeId),
    ("filesystem_id", .text item.filesystemId),
    ("name", .text item.name),
    ("mount_point", .text item.mountPoint),
    ("rollback_with_system", .bool item.rollbackWithSystem)]

def MountDeclaration.toDict (item : MountDeclaration) : Written F :=
  .dict [("source_id", .text item.sourceId),
    ("target_path", .text item.targetPath),
    ("role", .member (mountRole.value item.role))]

def BootTarget.toDict (item : BootTarget) : Written F :=
  .dict [("efi_filesystem_id", .text item.efiFilesystemId),
    ("bios_disk_reference_id", .text item.biosDiskReferenceId),
    ("vendor_directory", .text item.vendorDirectory),
    ("fallback_path", .text item.fallbackPath)]

def StorageGraphOperation.toDict (item : StorageGraphOperation) : Written F :=
  .dict [("action", .member (storageGraphAction.value item.action)),
    ("target_id", .text item.targetId)]

def StorageGraph.toDict (graph : StorageGraph) : Written F :=
  .dict [("schema_version", .integer graph.schemaVersion),
    ("mode", .member (storageGraphMode.value graph.mode)),
    ("inventory_digest", .text graph.inventoryDigest),
    ("partition_table", .text graph.partitionTable),
    ("block_references", .list (graph.blockReferences.map BlockReference.toDict)),
    ("partitions", .list (graph.partitions.map PartitionDeclaration.toDict)),
    ("partition_resizes", .list (graph.partitionResizes.map PartitionResizeDeclaration.toDict)),
    ("filesystems", .list (graph.filesystems.map FilesystemDeclaration.toDict)),
    ("subvolumes", .list (graph.subvolumes.map SubvolumeDeclaration.toDict)),
    ("mounts", .list (graph.mounts.map MountDeclaration.toDict)),
    ("boot_targets", .list (graph.bootTargets.map BootTarget.toDict)),
    ("operations", .list (graph.operations.map StorageGraphOperation.toDict)),
    ("requested_capabilities",
      .list (graph.requestedCapabilities.map fun item => .member (storageCapability.value item)))]

/-! ## Reading -/

def blockReference (value : Json F) (index : ℕ) : Except DecodeError BlockReference := do
  let path := s!"storage.graph.block_references[{index}]"
  let item ← exactly path
    ["reference_id", "kind", "stable_id", "parent_reference_id", "expected_size_bytes",
      "start_bytes", "topology_digest"] value
  return {
    referenceId := ← string s!"{path}.reference_id" (item "reference_id")
    kind := ← blockReferenceKind.ofValue (item "kind")
    stableId := ← string s!"{path}.stable_id" (item "stable_id")
    parentReferenceId := ← string s!"{path}.parent_reference_id" (item "parent_reference_id")
    expectedSizeBytes := ← integer s!"{path}.expected_size_bytes" (item "expected_size_bytes")
    startBytes := ← integer s!"{path}.start_bytes" (item "start_bytes")
    topologyDigest := ← string s!"{path}.topology_digest" (item "topology_digest") }

def partition (value : Json F) (index : ℕ) : Except DecodeError PartitionDeclaration := do
  let path := s!"storage.graph.partitions[{index}]"
  let item ← exactly path
    ["partition_id", "parent_reference_id", "number", "name", "start_mib", "end_mib", "flags"] value
  let «end» ← optional (integer s!"{path}.end_mib") (item "end_mib")
  return {
    partitionId := ← string s!"{path}.partition_id" (item "partition_id")
    parentReferenceId := ← string s!"{path}.parent_reference_id" (item "parent_reference_id")
    number := ← integer s!"{path}.number" (item "number")
    name := ← string s!"{path}.name" (item "name")
    startMib := ← integer s!"{path}.start_mib" (item "start_mib")
    endMib := «end»
    flags := ← listOf s!"{path}.flags" (fun flag _ => string s!"{path}.flags" flag) (item "flags") }

def partitionResize (value : Json F) (index : ℕ) : Except DecodeError PartitionResizeDeclaration := do
  let path := s!"storage.graph.partition_resizes[{index}]"
  let item ← exactly path
    ["target_reference_id", "filesystem", "original_size_bytes", "target_size_bytes"] value
  return {
    targetReferenceId := ← string s!"{path}.target_reference_id" (item "target_reference_id")
    filesystem := ← graphFilesystem.ofValue (item "filesystem")
    originalSizeBytes := ← integer s!"{path}.original_size_bytes" (item "original_size_bytes")
    targetSizeBytes := ← integer s!"{path}.target_size_bytes" (item "target_size_bytes") }

def filesystem (value : Json F) (index : ℕ) : Except DecodeError FilesystemDeclaration := do
  let path := s!"storage.graph.filesystems[{index}]"
  let item ← exactly path ["filesystem_id", "block_id", "filesystem", "label"] value
  return {
    filesystemId := ← string s!"{path}.filesystem_id" (item "filesystem_id")
    blockId := ← string s!"{path}.block_id" (item "block_id")
    filesystem := ← graphFilesystem.ofValue (item "filesystem")
    label := ← string s!"{path}.label" (item "label") }

def subvolume (value : Json F) (index : ℕ) : Except DecodeError SubvolumeDeclaration := do
  let path := s!"storage.graph.subvolumes[{index}]"
  let item ← exactly path
    ["subvolume_id", "filesystem_id", "name", "mount_point", "rollback_with_system"] value
  let rollback ← boolean s!"{path}.rollback_with_system" (item "rollback_with_system")
  return {
    subvolumeId := ← string s!"{path}.subvolume_id" (item "subvolume_id")
    filesystemId := ← string s!"{path}.filesystem_id" (item "filesystem_id")
    name := ← string s!"{path}.name" (item "name")
    mountPoint := ← string s!"{path}.mount_point" (item "mount_point")
    rollbackWithSystem := rollback }

def mount (value : Json F) (index : ℕ) : Except DecodeError MountDeclaration := do
  let path := s!"storage.graph.mounts[{index}]"
  let item ← exactly path ["source_id", "target_path", "role"] value
  return {
    sourceId := ← string s!"{path}.source_id" (item "source_id")
    targetPath := ← string s!"{path}.target_path" (item "target_path")
    role := ← mountRole.ofValue (item "role") }

def bootTarget (value : Json F) (index : ℕ) : Except DecodeError BootTarget := do
  let path := s!"storage.graph.boot_targets[{index}]"
  let item ← exactly path
    ["efi_filesystem_id", "bios_disk_reference_id", "vendor_directory", "fallback_path"] value
  return {
    efiFilesystemId := ← string s!"{path}.efi_filesystem_id" (item "efi_filesystem_id")
    biosDiskReferenceId := ← string s!"{path}.bios_disk_reference_id" (item "bios_disk_reference_id")
    vendorDirectory := ← string s!"{path}.vendor_directory" (item "vendor_directory")
    fallbackPath := ← string s!"{path}.fallback_path" (item "fallback_path") }

def operation (value : Json F) (index : ℕ) : Except DecodeError StorageGraphOperation := do
  let path := s!"storage.graph.operations[{index}]"
  let item ← exactly path ["action", "target_id"] value
  return {
    action := ← storageGraphAction.ofValue (item "action")
    targetId := ← string s!"{path}.target_id" (item "target_id") }

def StorageGraph.fromDict (value : Json F) : Except DecodeError StorageGraph := do
  let graph ← exactly "storage.graph"
    ["schema_version", "mode", "inventory_digest", "partition_table", "block_references",
      "partitions", "partition_resizes", "filesystems", "subvolumes", "mounts", "boot_targets",
      "operations", "requested_capabilities"] value
  return {
    schemaVersion := ← integer "storage.graph.schema_version" (graph "schema_version")
    mode := ← storageGraphMode.ofValue (graph "mode")
    inventoryDigest := ← string "storage.graph.inventory_digest" (graph "inventory_digest")
    partitionTable := ← string "storage.graph.partition_table" (graph "partition_table")
    blockReferences := ←
      listOf "storage.graph.block_references" blockReference (graph "block_references")
    partitions := ← listOf "storage.graph.partitions" partition (graph "partitions")
    partitionResizes := ←
      listOf "storage.graph.partition_resizes" partitionResize (graph "partition_resizes")
    filesystems := ← listOf "storage.graph.filesystems" filesystem (graph "filesystems")
    subvolumes := ← listOf "storage.graph.subvolumes" subvolume (graph "subvolumes")
    mounts := ← listOf "storage.graph.mounts" mount (graph "mounts")
    bootTargets := ← listOf "storage.graph.boot_targets" bootTarget (graph "boot_targets")
    operations := ← listOf "storage.graph.operations" operation (graph "operations")
    requestedCapabilities := ←
      listOf "storage.graph.requested_capabilities" (fun item _ => storageCapability.ofValue item)
        (graph "requested_capabilities") }

end Installer
