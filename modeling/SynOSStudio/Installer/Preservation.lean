import SynOSStudio.Installer.WriteSets

/-!
# Preservation snapshots

What is frozen of a disk before the first write, and the checks of the disk afterwards.
-/

namespace Installer

open KeyedLists

structure PreservedPartition where
  number : ℤ
  partuuid : String
  startBytes : ℤ
  sizeBytes : ℤ
  partitionType : String
  filesystemType : String
  filesystemUuid : String
  flags : List String
  deriving DecidableEq

def preservedPartition (partition : PartitionInventory) : PreservedPartition where
  number := partition.identity.number
  partuuid := partition.identity.partuuid
  startBytes := partition.identity.startBytes
  sizeBytes := partition.identity.sizeBytes
  partitionType := partition.partitionType
  filesystemType := partition.filesystemType
  filesystemUuid := partition.filesystemUuid
  flags := sorted partition.flags

structure GuidedPreservationSnapshot where
  diskStableId : String
  diskSizeBytes : ℤ
  partitionTable : String
  partitionTableUuid : String
  partitions : List PreservedPartition

structure ManualPreservationSnapshot where
  diskStableId : String
  diskSizeBytes : ℤ
  partitionTable : String
  partitionTableUuid : String
  reinitializesGpt : Bool
  partitions : List PreservedPartition
  resizedPartitions : List (PreservedPartition × ℤ)
  deletedPartuuids : List String

section Capture

variable (plan : StoragePlan) (inventory : StorageInventory) (writeSet : StorageWriteSet)

def writesWith (action : StorageGraphAction) : List StorageWriteOperation :=
  writeSet.operations.filter fun item => item.action == action

/-- The PARTUUIDs of the operations of one action. -/
def partuuidsOf (action : StorageGraphAction) : Except String (List String) :=
  (writesWith writeSet action).mapM fun item => item.detail "partuuid"

def selectedDisk (stableId message : String) (inventory : StorageInventory) :
    Except String DiskInventory :=
  match inventory.disk stableId with
  | .error _ => .error message
  | .ok disk => .ok disk

/-- Freeze every preserve-marked partition before the first disk write. -/
def captureGuidedPreservationSnapshot : Except String GuidedPreservationSnapshot := do
  raiseIf (plan.mode != .guidedCoexistence) "Preservation snapshots require guided mode"
  raiseIf (writeSet.mode != .guidedCoexistence) "Preservation write set has the wrong mode"
  let disk ← selectedDisk plan.diskStableId "Selected disk disappeared" inventory
  raiseIf (disk.expectedSizeBytes != plan.diskSizeBytes) "Selected disk size changed"
  let preserved ← partuuidsOf writeSet .preserve
  raiseIf (preserved != disk.partitions.map fun item => item.identity.partuuid)
    "The guided write set does not preserve every existing partition"
  return {
    diskStableId := disk.stableId
    diskSizeBytes := disk.expectedSizeBytes
    partitionTable := disk.partitionTable
    partitionTableUuid := disk.partitionTableUuid
    partitions := disk.partitions.map preservedPartition }

def resizeTarget (item : StorageWriteOperation) : Except String (String × ℤ) := do
  let partuuid ← item.detail "partuuid"
  let text ← item.detail "target_size_bytes"
  let target ← keyed ("invalid literal for int() with base 10: " ++ text) (decimalNumber text)
  return (partuuid, target)

def resizedPartition (disk : DiskInventory) (resize : String × ℤ) :
    Except String (PreservedPartition × ℤ) := do
  let partition ← keyed "StopIteration"
    (disk.partitions.find? fun item => item.identity.partuuid == resize.1)
  return (preservedPartition partition, resize.2)

/-- Every existing partition is accounted for, unless the whole table is replaced. -/
def checkAccounted (replacesTable : Bool) (preserved deleted resized existing : List String) :
    Except String Unit :=
  if replacesTable then
    raiseIf (!preserved.isEmpty || !deleted.isEmpty || !resized.isEmpty)
      "A replacement GPT cannot preserve individual partitions"
  else
    raiseIf (!sameMembers (preserved ++ deleted ++ resized) existing)
      "Every existing manual partition must be preserved, deleted or resized"

/-- Freeze exactly the objects that a canonical manual plan will preserve. -/
def captureManualPreservationSnapshot : Except String ManualPreservationSnapshot := do
  raiseIf (plan.mode != .manual) "Manual snapshot requires manual mode"
  raiseIf (writeSet.mode != .manual) "Manual write set has the wrong mode"
  let disk ← selectedDisk plan.diskStableId "Selected disk disappeared" inventory
  let preserved ← partuuidsOf writeSet .preserve
  let deleted ← partuuidsOf writeSet .deletePartition
  let resizes ← (writesWith writeSet .resizePartition).mapM resizeTarget
  let resized := resizes.map Prod.fst
  let replacesTable := !(writesWith writeSet .replacePartitionTable).isEmpty
  let existing := disk.partitions.map fun item => item.identity.partuuid
  checkAccounted replacesTable preserved deleted resized existing
  let resizedPartitions ← resizes.mapM (resizedPartition disk)
  return {
    diskStableId := disk.stableId
    diskSizeBytes := disk.expectedSizeBytes
    partitionTable := disk.partitionTable
    partitionTableUuid := disk.partitionTableUuid
    reinitializesGpt := replacesTable
    partitions := (disk.partitions.filter fun item =>
      item.identity.partuuid ∈ preserved).map preservedPartition
    resizedPartitions := resizedPartitions
    deletedPartuuids := if replacesTable then existing else deleted }

end Capture

section Verify

variable (casing : Casing) (plan : StoragePlan)

/-- The dictionary `current` or `current_by_partuuid`. -/
def currentByPartuuid (disk : DiskInventory) (partuuid : String) : Option PartitionInventory :=
  entry (fun item : PartitionInventory => item.identity.partuuid) disk.partitions partuuid

def currentByNumber (disk : DiskInventory) (number : ℤ) : Option PartitionInventory :=
  entry (fun item : PartitionInventory => item.identity.number) disk.partitions number

def verifyPreserved (disk : DiskInventory) (expected : PreservedPartition) : Except String Unit :=
  match currentByPartuuid disk expected.partuuid with
  | none => .error ("Preserved partition disappeared: " ++ expected.partuuid)
  | some actual =>
    raiseIf (preservedPartition actual != expected)
      ("Preserved partition changed: " ++ expected.partuuid)

/-- The comparison of a resized partition with what it was. -/
def resizedUnexpectedly (before after : PreservedPartition) (targetSizeBytes : ℤ) : Bool :=
  after.number != before.number || after.partuuid != before.partuuid ||
    after.startBytes != before.startBytes || after.sizeBytes != targetSizeBytes ||
    after.partitionType != before.partitionType ||
    casing.casefold after.filesystemType != "ntfs" ||
    after.filesystemUuid != before.filesystemUuid || after.flags != before.flags

def verifyResized (disk : DiskInventory) (resize : PreservedPartition × ℤ) :
    Except String Unit :=
  match currentByPartuuid disk resize.1.partuuid with
  | none => .error ("Resized partition disappeared: " ++ resize.1.partuuid)
  | some actual =>
    raiseIf (resizedUnexpectedly casing resize.1 (preservedPartition actual) resize.2)
      ("Resized partition changed unexpectedly: " ++ resize.1.partuuid)

def verifyDeleted (disk : DiskInventory) (partuuid : String) : Except String Unit :=
  raiseIf (currentByPartuuid disk partuuid).isSome ("Deleted partition still exists: " ++ partuuid)

def acceptedTypes : GraphFilesystem → Option (List String)
  | .vfat => some ["fat", "fat16", "fat32", "vfat"]
  | .swap => some ["swap"]
  | .btrfs => some ["btrfs"]
  | .ext4 => some ["ext4"]
  | .xfs => some ["xfs"]
  | .f2fs => some ["f2fs"]
  | .ntfs => none

def filesystemByBlock (graph : StorageGraph) (blockId : String) : Option GraphFilesystem :=
  (entry FilesystemDeclaration.blockId graph.filesystems blockId).map
    FilesystemDeclaration.filesystem

def verifyNewPartition (graph : StorageGraph) (disk : DiskInventory)
    (declaration : PartitionDeclaration) : Except String Unit :=
  match currentByNumber disk declaration.number, declaration.endMib with
  | some actual, some endMib => do
    raiseIf (actual.identity.startBytes != declaration.startMib * MIB ||
        actual.identity.sizeBytes != (endMib - declaration.startMib) * MIB)
      ("New partition geometry changed: " ++ declaration.name)
    let filesystem ← keyed declaration.partitionId
      (filesystemByBlock graph declaration.partitionId)
    let accepted ← keyed filesystem.value (acceptedTypes filesystem)
    raiseIf (casing.casefold actual.filesystemType ∉ accepted)
      ("New partition filesystem changed: " ++ declaration.name)
    raiseIf (actual.identity.partuuid == "" || actual.filesystemUuid == "")
      ("New partition identity is missing: " ++ declaration.name)
  | _, _ => .error ("New partition is missing: " ++ declaration.name)

def verifyNewPartitions (graph : StorageGraph) (disk : DiskInventory) : Except String Unit :=
  graph.partitions.forM (verifyNewPartition casing graph disk)

/-- Whether the numbers on the disk are these. -/
def numbersAre (disk : DiskInventory) (expected : List ℤ) : Bool :=
  (disk.partitions.all fun item => item.identity.number ∈ expected) &&
    expected.all fun number => number ∈ disk.partitions.map fun item => item.identity.number

def graphNumbers (graph : StorageGraph) : List ℤ :=
  graph.partitions.map PartitionDeclaration.number

/-- Reject any identity, boundary, type or filesystem drift after writes. -/
def verifyGuidedPreservationSnapshot (snapshot : GuidedPreservationSnapshot)
    (inventory : StorageInventory) : Except String Unit := do
  let disk ← selectedDisk snapshot.diskStableId "Selected disk disappeared after partitioning"
    inventory
  raiseIf (disk.expectedSizeBytes != snapshot.diskSizeBytes)
    "Selected disk size changed after partitioning"
  raiseIf (disk.partitionTable != snapshot.partitionTable ||
      disk.partitionTableUuid != snapshot.partitionTableUuid)
    "Existing partition table identity changed"
  snapshot.partitions.forM (verifyPreserved disk)

/-- Verify preserved objects and every newly declared partition. -/
def verifyGuidedStorageResult (snapshot : GuidedPreservationSnapshot)
    (inventory : StorageInventory) : Except String Unit := do
  verifyGuidedPreservationSnapshot snapshot inventory
  match plan.graph with
  | none => .error "Guided storage graph is missing"
  | some graph => do
    let disk ← inventory.disk snapshot.diskStableId
    raiseIf (!numbersAre disk (snapshot.partitions.map PreservedPartition.number ++
        graphNumbers graph))
      "Partition result contains missing or undeclared partitions"
    verifyNewPartitions casing graph disk

/-- Prove that only declared manual deletes and creates occurred. -/
def verifyManualStorageResult (snapshot : ManualPreservationSnapshot)
    (inventory : StorageInventory) : Except String Unit := do
  let disk ← selectedDisk snapshot.diskStableId "Selected disk disappeared after partitioning"
    inventory
  raiseIf (disk.expectedSizeBytes != snapshot.diskSizeBytes)
    "Selected disk size changed after partitioning"
  raiseIf (disk.partitionTable != "gpt") "Manual installation did not produce GPT"
  raiseIf (!snapshot.reinitializesGpt && (disk.partitionTable != snapshot.partitionTable ||
      disk.partitionTableUuid != snapshot.partitionTableUuid))
    "Preserved partition table identity changed"
  snapshot.partitions.forM (verifyPreserved disk)
  snapshot.resizedPartitions.forM (verifyResized casing disk)
  snapshot.deletedPartuuids.forM (verifyDeleted disk)
  match plan.graph with
  | none => .error "Manual storage graph is missing"
  | some graph => do
    raiseIf (!numbersAre disk (snapshot.partitions.map PreservedPartition.number ++
        snapshot.resizedPartitions.map (fun item => item.1.number) ++ graphNumbers graph))
      "Manual result contains missing or undeclared partitions"
    verifyNewPartitions casing graph disk

end Verify

end Installer
