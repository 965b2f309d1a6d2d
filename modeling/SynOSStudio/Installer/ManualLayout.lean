import SynOSStudio.Installer.Plan
import SynOSStudio.Installer.StorageInventory

/-!
# Manual layouts

The edits of the manual partition editor, their validation against a disk, and the space
that they leave.
-/

namespace Installer

open IntervalLists

def MINIMUM_NEW_ESP_MIB : ℤ := 512
def MINIMUM_ROOT_MIB : ℤ := 20 * 1024
def MINIMUM_NTFS_MIB : ℤ := 4 * 1024
def MICROSOFT_LDM_METADATA_GUID : String := "5808c8aa-7e8f-42e0-85d2-e1e90434cfb3"
def MICROSOFT_LDM_DATA_GUID : String := "af9b60a0-1431-4f62-bc68-3311714a69ad"
def UNSUPPORTED_MANUAL_FILESYSTEMS : List String :=
  ["bitlocker", "crypto_luks", "linux_raid_member", "lvm2_member"]

inductive ManualPartitionRole where
  | efiSystem
  | root
  | swap
  deriving DecidableEq

def ManualPartitionRole.value : ManualPartitionRole → String
  | .efiSystem => "efi-system"
  | .root => "root"
  | .swap => "swap"

/-- One new partition with an absolute, end-exclusive MiB range. -/
structure ManualPartitionRequest where
  role : ManualPartitionRole
  startMib : ℤ
  endMib : ℤ
  deriving DecidableEq

def ManualPartitionRequest.sizeMib (request : ManualPartitionRequest) : ℤ :=
  request.endMib - request.startMib

/-- Shrink one existing plain NTFS partition without moving its start. -/
structure ManualPartitionResizeRequest where
  partuuid : String
  originalSizeBytes : ℤ
  targetSizeMib : ℤ
  deriving DecidableEq

structure ManualStorageSelection where
  diskStableId : String
  diskSizeBytes : ℤ
  diskTopologyDigest : String
  reinitializeGpt : Bool
  deletedPartuuids : List String
  reusedEspPartuuid : String
  filesystem : Filesystem
  newPartitions : List ManualPartitionRequest
  resizedPartitions : List ManualPartitionResizeRequest
  deriving DecidableEq

section Extents

/-- A MiB-aligned, end-exclusive range available to the editor. -/
abbrev ManualFreeExtent := Extent ℤ

def sizeMib (extent : ManualFreeExtent) : ℤ := extent.stop - extent.start

def alignedExtent (startBytes sizeBytes : ℤ) : ManualFreeExtent :=
  ⟨(startBytes + MIB - 1) / MIB, (startBytes + sizeBytes) / MIB⟩

def mergeExtents (extents : List ManualFreeExtent) : List ManualFreeExtent :=
  merge extents

def subtractExtents (available occupied : List ManualFreeExtent) : List ManualFreeExtent :=
  (cutAll available occupied).filter fun item => 0 < sizeMib item

def partitionForPartuuid (disk : DiskInventory) (partuuid : String) :
    Except String PartitionInventory :=
  match disk.partitions.find? fun p => p.identity.partuuid == partuuid with
  | none => .error "Partition identity changed"
  | some p => .ok p

def resizeForPartuuid (selection : ManualStorageSelection) (partuuid : String) :
    Option ManualPartitionResizeRequest :=
  selection.resizedPartitions.find? fun item => item.partuuid == partuuid

/-- The end of a partition that a resize gives up. -/
def shrunkTail (disk : DiskInventory) (request : ManualPartitionResizeRequest) :
    Except String ManualFreeExtent := do
  let partition ← partitionForPartuuid disk request.partuuid
  let targetSizeBytes := request.targetSizeMib * MIB
  return alignedExtent (partition.identity.startBytes + targetSizeBytes)
    (partition.identity.sizeBytes - targetSizeBytes)

def baseAllocatableExtents (disk : DiskInventory) (selection : ManualStorageSelection) :
    Except String (List ManualFreeExtent) :=
  if selection.reinitializeGpt then
    let diskEndMib := disk.expectedSizeBytes / MIB - 1
    .ok (if 1 < diskEndMib then [⟨1, diskEndMib⟩] else [])
  else do
    let free := disk.freeExtents.map fun item => alignedExtent item.startBytes item.sizeBytes
    let deleted := (disk.partitions.filter fun p =>
      p.identity.partuuid ∈ selection.deletedPartuuids).map fun p =>
        alignedExtent p.identity.startBytes p.identity.sizeBytes
    let tails ← selection.resizedPartitions.mapM (shrunkTail disk)
    return mergeExtents ((free ++ deleted ++ tails).filter fun item => 0 < sizeMib item)

def occupiedExtents (selection : ManualStorageSelection) : List ManualFreeExtent :=
  selection.newPartitions.map fun item => ⟨item.startMib, item.endMib⟩

/-- Remaining aligned space after the new partitions. -/
def manualAvailableExtents (disk : DiskInventory) (selection : ManualStorageSelection) :
    Except String (List ManualFreeExtent) := do
  let base ← baseAllocatableExtents disk selection
  return subtractExtents base (occupiedExtents selection)

end Extents

section Validation

variable (casing : Casing)

def raiseIf (condition : Bool) (message : String) : Except String Unit :=
  if condition then .error message else .ok ()

/-- Why a partition keeps its disk out of the manual editor. -/
def partitionBlockReason (reinitializeGpt : Bool) (allowedSwaps : List String)
    (p : PartitionInventory) : Option String :=
  let filesystem := casing.casefold p.filesystemType
  let partitionType := casing.casefold (stripBraces p.partitionType)
  let activeDeletedSwap := p.mountpoints == ["[SWAP]"] && filesystem == "swap" &&
    p.identity.partuuid ∈ allowedSwaps
  if !p.mountpoints.isEmpty && !activeDeletedSwap then
    some ("Partition is mounted: " ++ p.identity.path)
  else if filesystem ∈ UNSUPPORTED_MANUAL_FILESYSTEMS then
    some ("Manual editing does not support " ++ filesystem ++ ": " ++ p.identity.path)
  else if partitionType ∈ [MICROSOFT_LDM_METADATA_GUID, MICROSOFT_LDM_DATA_GUID] then
    some ("Manual editing does not support Windows Dynamic Disk: " ++ p.identity.path)
  else if !reinitializeGpt && p.identity.partuuid == "" then
    some ("An existing partition has no stable GPT identity: " ++ p.identity.path)
  else none

def manualLayoutBlockReason (disk : DiskInventory) (reinitializeGpt : Bool)
    (allowedActiveSwapPartuuids : List String) : Option String :=
  if disk.geometryProbeError != "" then some "Complete partition geometry is unavailable"
  else if !reinitializeGpt && disk.partitionTable != "gpt" then
    some "Manual editing requires GPT or explicit GPT reinitialization"
  else if !disk.unsupportedDescendantTypes.isEmpty then
    some ("Manual editing does not support nested storage: " ++
      ", ".intercalate disk.unsupportedDescendantTypes)
  else disk.partitions.findSome?
    (partitionBlockReason casing reinitializeGpt allowedActiveSwapPartuuids)

/-- The dictionary `existing`: of several partitions with one PARTUUID the last. -/
def existingPartition (disk : DiskInventory) (partuuid : String) : Option PartitionInventory :=
  if partuuid == "" then none
  else disk.partitions.reverse.find? fun p => p.identity.partuuid == partuuid

def validateDeletions (disk : DiskInventory) (selection : ManualStorageSelection) :
    Except String Unit := do
  let deleted := selection.deletedPartuuids
  raiseIf (!decide deleted.Nodup) "A partition is marked for deletion twice"
  raiseIf (deleted.any fun item => item == "" || (existingPartition disk item).isNone)
    "A deleted partition identity changed"
  raiseIf (selection.reinitializeGpt && !deleted.isEmpty)
    "A replacement GPT cannot also carry individual deletions"

def validateResize (disk : DiskInventory) (request : ManualPartitionResizeRequest) :
    Except String Unit :=
  match existingPartition disk request.partuuid with
  | none => .error "A resized partition identity changed"
  | some partition => do
    raiseIf (casing.casefold partition.filesystemType != "ntfs")
      "Only plain NTFS partitions can be resized"
    raiseIf (!partition.mountpoints.isEmpty) "A resized NTFS partition is mounted"
    raiseIf (request.originalSizeBytes != partition.identity.sizeBytes)
      "A resized partition size changed"
    raiseIf (request.targetSizeMib < MINIMUM_NTFS_MIB ||
        partition.identity.sizeBytes / MIB ≤ request.targetSizeMib)
      "The requested NTFS size is invalid"

def validateResizes (disk : DiskInventory) (selection : ManualStorageSelection) :
    Except String Unit := do
  let resizedIds := selection.resizedPartitions.map ManualPartitionResizeRequest.partuuid
  raiseIf (!decide resizedIds.Nodup) "A partition is resized twice"
  raiseIf (resizedIds != (disk.partitions.map fun p => p.identity.partuuid).filter (· ∈ resizedIds))
    "Partition resizes must follow disk order"
  raiseIf (selection.reinitializeGpt && !selection.resizedPartitions.isEmpty)
    "A replacement GPT cannot resize partitions"
  raiseIf (resizedIds.any (· ∈ selection.deletedPartuuids))
    "A partition cannot be resized and deleted"
  raiseIf ((disk.partitions.any fun p => p.isBitlockerPartition casing) &&
      !selection.resizedPartitions.isEmpty)
    "BitLocker must be fully disabled before shrinking this disk"
  selection.resizedPartitions.forM (validateResize casing disk)

def validateReusedEsp (disk : DiskInventory) (selection : ManualStorageSelection) :
    Except String Unit := do
  let reused := selection.reusedEspPartuuid
  raiseIf (selection.reinitializeGpt && reused != "")
    "An existing EFI partition cannot survive GPT reinitialization"
  if reused = "" then .ok ()
  else match existingPartition disk reused with
    | none => .error "Selected EFI System Partition changed"
    | some partition => do
      raiseIf (reused ∈ selection.deletedPartuuids) "Selected EFI System Partition changed"
      raiseIf (!partition.isEfiFilesystemCandidate casing)
        "Selected partition is not a reusable FAT EFI System Partition"
      raiseIf (partition.filesystemUuid == "")
        "Selected EFI System Partition has no filesystem identity"

def geometryOrdered (requests : List ManualPartitionRequest) : List ManualPartitionRequest :=
  requests.insertionSort fun a b => a.startMib < b.startMib ∨
    (a.startMib = b.startMib ∧ a.endMib ≤ b.endMib)

def validateRoles (selection : ManualStorageSelection) : Except String Unit := do
  let roles := selection.newPartitions.map ManualPartitionRequest.role
  raiseIf (selection.newPartitions != geometryOrdered selection.newPartitions)
    "Manual partitions must be ordered by geometry"
  raiseIf (!decide roles.Nodup) "Each manual partition role may appear once"
  raiseIf (roles.count .root != 1) "Manual layout requires exactly one Root partition"
  raiseIf (roles.count .efiSystem + (if selection.reusedEspPartuuid = "" then 0 else 1) != 1)
    "Manual layout requires exactly one new or reused EFI partition"
  raiseIf (1 < roles.count .swap) "Manual layout supports at most one Swap partition"

/-- The loop over the new partitions, with `previous_end`. -/
def validateRequests (allocatable : List ManualFreeExtent) :
    ℤ → List ManualPartitionRequest → Except String Unit
  | _, [] => .ok ()
  | previousEnd, request :: rest => do
    raiseIf (request.startMib < 1 || request.endMib ≤ request.startMib)
      "Manual partition geometry is invalid"
    raiseIf (request.startMib < previousEnd) "Manual partitions overlap"
    raiseIf (!allocatable.any fun extent =>
        extent.start ≤ request.startMib && request.endMib ≤ extent.stop)
      (request.role.value ++ " does not fit in available space")
    raiseIf (request.role == .efiSystem && request.sizeMib < MINIMUM_NEW_ESP_MIB)
      "A new EFI System Partition must be at least 512 MiB"
    raiseIf (request.role == .root && request.sizeMib < MINIMUM_ROOT_MIB)
      "The Root partition must be at least 20 GiB"
    validateRequests allocatable request.endMib rest

/-- The swap partitions that may be active. -/
def allowedActiveSwaps (disk : DiskInventory) (selection : ManualStorageSelection) : List String :=
  if selection.reinitializeGpt then
    (disk.partitions.filter fun p => casing.casefold p.filesystemType == "swap").map fun p =>
      p.identity.partuuid
  else selection.deletedPartuuids

def validateManualSelection (disk : DiskInventory) (selection : ManualStorageSelection) :
    Except String Unit := do
  raiseIf (selection.diskStableId != disk.stableId) "Manual layout targets a different disk"
  raiseIf (selection.diskSizeBytes != disk.expectedSizeBytes) "Selected disk size changed"
  raiseIf (selection.diskTopologyDigest != disk.topologyDigest) "Selected disk topology changed"
  match manualLayoutBlockReason casing disk selection.reinitializeGpt
      (allowedActiveSwaps casing disk selection) with
  | some reason => .error reason
  | none => do
    validateDeletions disk selection
    validateResizes casing disk selection
    validateReusedEsp casing disk selection
    validateRoles selection
    let allocatable ← baseAllocatableExtents disk selection
    validateRequests allocatable (-1) selection.newPartitions

end Validation

end Installer
