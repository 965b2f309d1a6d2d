import SynOSStudio.Installer.TargetSwap
import SynOSStudio.PartitionTables.Tables

/-!
# Storage commands

The commands that the guided and the manual mode compile for a disk, and what the commands for
its partition table do to such a table.
-/

namespace Installer

open IntervalLists KeyedLists PartitionTables

/-! ## Compiling commands -/

section Compiling

structure NtfsResizeCommandPlan where
  targetReferenceId : String
  disk : String
  device : String
  partitionNumber : ℤ
  originalSizeBytes : ℤ
  targetSizeBytes : ℤ
  targetEndBytes : ℤ
  deriving DecidableEq

structure StorageCommandPlan where
  partition : List (List String)
  format : List (List String)
  devices : List (String × String)
  deactivateSwapDevices : List String
  ntfsResizes : List NtfsResizeCommandPlan
  deriving DecidableEq

/-- `_graph_parted_filesystem_hint` -/
def partedFilesystemHint : GraphFilesystem → Except String (Option String)
  | .vfat => .ok (some "fat32")
  | .swap => .ok (some "linux-swap")
  | .btrfs => .ok (some "btrfs")
  | .ext4 => .ok (some "ext4")
  | .xfs => .ok none
  | .f2fs => .ok none
  | .ntfs => .error "GraphFilesystem.NTFS"

def formatCommand (filesystem : GraphFilesystem) (device : String) :
    Except String (List String) :=
  match filesystem with
  | .vfat => .ok ["mkfs.vfat", "-F", "32", "-n", "SYNOS_EFI", device]
  | .swap => .ok ["mkswap", "-L", "synos-swap", device]
  | .btrfs => .ok ["mkfs.btrfs", "--force", "--label", "synos", device]
  | .ext4 => .ok ["mkfs.ext4", "-F", "-L", "synos", device]
  | .xfs => .ok ["mkfs.xfs", "-f", "-L", "synos", device]
  | .f2fs => .ok ["mkfs.f2fs", "-f", "-l", "synos", device]
  | .ntfs => .error "Unsupported target filesystem: GraphFilesystem.NTFS"

def mibText (mib : ℤ) : String := mib.repr ++ "MiB"

variable (diskPath : String)

def mkpartCommand (name : String) (hint : Option String) (start stop : String) : List String :=
  ["parted", "--script", diskPath, "unit", "MiB", "mkpart", name] ++ hint.toList ++ [start, stop]

def flagCommands (part : PartitionDeclaration) : List (List String) :=
  (part.flags.filter (· ≠ "swap")).map fun flag =>
    ["parted", "--script", diskPath, "set", part.number.repr, flag, "on"]

def guidedPartitionCommands (graph : StorageGraph) (part : PartitionDeclaration) :
    Except String (List (List String)) := do
  let declared ← keyed "StopIteration"
    (graph.filesystems.find? fun item => item.blockId == part.partitionId)
  let hint ← partedFilesystemHint declared.filesystem
  match part.endMib with
  | none => .error "Coexistence partition has no bounded end"
  | some «end» =>
    return mkpartCommand diskPath part.name hint (mibText part.startMib) (mibText «end») ::
      flagCommands diskPath part

variable (disk : DiskInventory) (graph : StorageGraph)

/-- The dictionary `devices`, with a reused ESP in the last place. -/
def guidedDevices (boot : BootTarget) : List (String × String) :=
  let created := graph.partitions.map fun part => (part.name, partitionPath diskPath part.number)
  if "efi-system" ∈ created.map Prod.fst then created
  else match disk.partitions.find? fun item =>
      existingPartitionReferenceId (diskId disk.stableId) item.identity.partuuid ==
        boot.efiFilesystemId with
    | none => created
    | some esp => created ++ [("efi-system", esp.identity.path)]

/-- The dictionary `declarations`. -/
def formattedDeclaration (part : PartitionDeclaration) : Option FilesystemDeclaration :=
  entry FilesystemDeclaration.blockId
    (graph.filesystems.filter fun item => item.blockId ∈ targets graph .format) part.partitionId

/-- The loop over the partitions with `format_commands`. -/
def guidedFormats : List PartitionDeclaration → Except String (List (List String))
  | [] => .ok []
  | part :: rest =>
    match formattedDeclaration graph part with
    | none => guidedFormats rest
    | some declaration => do
      let command ← formatCommand declaration.filesystem (partitionPath diskPath part.number)
      let commands ← guidedFormats rest
      return command :: commands

def buildGuidedCoexistenceStorageCommands (extentId : FreeExtent → String) (casing : Casing)
    (plan : StoragePlan) (inventory : StorageInventory) : Except String StorageCommandPlan := do
  raiseIf (plan.mode != .guidedCoexistence) "Plan is not guided coexistence"
  let disk ← validateGuidedCoexistenceGraph extentId casing plan inventory
  let graph ← keyed "graph" plan.graph
  let partition ← graph.partitions.mapM (guidedPartitionCommands diskPath graph)
  let boot ← firstBootTarget graph
  let devices := guidedDevices diskPath disk graph boot
  raiseIf (!sameMembers (devices.map Prod.fst) (expectedDevices plan))
    "Coexistence graph did not resolve target devices"
  let format ← guidedFormats diskPath graph graph.partitions
  return ⟨partition.flatten, format, devices, [], []⟩

/-- The dictionary `filesystems`. -/
def filesystemOf (blockId : String) : Except String GraphFilesystem :=
  keyed blockId ((entry FilesystemDeclaration.blockId graph.filesystems blockId).map
    FilesystemDeclaration.filesystem)

def manualPartitionCommands (part : PartitionDeclaration) : Except String (List (List String)) := do
  let filesystem ← filesystemOf graph part.partitionId
  let hint ← partedFilesystemHint filesystem
  return mkpartCommand diskPath part.name hint (mibText part.startMib)
    ((part.endMib.map mibText).getD "NoneMiB") :: flagCommands diskPath part

/-- A partition looked up in `existing_by_reference`. -/
def existingByReference (target : String) : Except String PartitionInventory :=
  keyed target (existingTarget disk target)

def removalCommand (target : String) : Except String (List String) := do
  let existing ← existingByReference disk target
  return ["parted", "--script", diskPath, "rm", existing.identity.number.repr]

/-- The commands before the new partitions. -/
def tableCommands : Except String (List (List String)) :=
  if !(targets graph .replacePartitionTable).isEmpty then
    .ok [["parted", "--script", diskPath, "mklabel", "gpt"]]
  else (targets graph .deletePartition).mapM (removalCommand diskPath disk)

def ntfsResize (declaration : PartitionResizeDeclaration) :
    Except String NtfsResizeCommandPlan := do
  let existing ← existingByReference disk declaration.targetReferenceId
  return {
    targetReferenceId := declaration.targetReferenceId
    disk := diskPath
    device := existing.identity.path
    partitionNumber := existing.identity.number
    originalSizeBytes := declaration.originalSizeBytes
    targetSizeBytes := declaration.targetSizeBytes
    targetEndBytes := existing.identity.startBytes + declaration.targetSizeBytes - 1 }

/-- The format of a new partition, if it is asked for. -/
def manualFormat (devices : List (String × String)) (part : PartitionDeclaration) :
    Except String (List String) := do
  let filesystem ← filesystemOf graph part.partitionId
  let (_, device) ← keyed part.name (entry Prod.fst devices part.name)
  formatCommand filesystem device

/-- `build_manual_storage_commands`, with everything that it compiles. The resizes of a valid
graph have distinct targets. -/
def buildManualStorageCommandPlan (casing : Casing) (plan : StoragePlan)
    (inventory : StorageInventory) : Except String StorageCommandPlan := do
  raiseIf (plan.mode != .manual) "Plan is not manual partitioning"
  let disk ← validateManualStorageGraph casing plan inventory
  let graph ← keyed "graph" plan.graph
  let table ← tableCommands diskPath disk graph
  let creations ← graph.partitions.mapM (manualPartitionCommands diskPath graph)
  let boot ← firstBootTarget graph
  let devices := manualDevices diskPath disk graph boot
  raiseIf (!sameMembers (devices.map Prod.fst) (expectedDevices plan))
    "Manual graph did not resolve target devices"
  let format ← (graph.partitions.filter fun part => part.partitionId ∈ targets graph .format).mapM
    (manualFormat graph devices)
  let ntfsResizes ← graph.partitionResizes.mapM (ntfsResize diskPath disk)
  return ⟨table ++ creations.flatten, format, devices, deactivateSwapDevices casing disk graph,
    ntfsResizes⟩

end Compiling

/-! ## Running commands -/

section Running

/-- A number of MiB as `parted` reads it. -/
def mibNumber (text : String) : Option ℤ :=
  if text.toList.drop (text.length - 3) = "MiB".toList then
    decimalNumber (String.ofList (text.toList.take (text.length - 3)))
  else none

def mibRange (start stop : String) : Option (Extent ℤ) := do
  let start ← mibNumber start
  let stop ← mibNumber stop
  return ⟨start * MIB, stop * MIB⟩

/-- What `parted` does at the words after the device. -/
def partedWords (table : Table String) : List String → Option (Table String)
  | ["mklabel", label] => if label = "gpt" then some table.clear else none
  | ["rm", number] => do
    let number ← decimalNumber number
    table.remove number
  | ["set", number, flag, state] => do
    let number ← decimalNumber number
    if state = "on" then table.mark number flag else none
  | ["unit", "MiB", "mkpart", _, start, stop] => do
    let range ← mibRange start stop
    table.make range
  | ["unit", "MiB", "mkpart", _, _, start, stop] => do
    let range ← mibRange start stop
    table.make range
  | _ => none

/-- One call of `parted` on the disk. -/
def parted (diskPath : String) (table : Table String) : List String → Option (Table String)
  | program :: script :: device :: words =>
    if program = "parted" ∧ script = "--script" ∧ device = diskPath then partedWords table words
    else none
  | _ => none

/-- A resize with its last byte. -/
def shrinkPartition (table : Table String) (resize : NtfsResizeCommandPlan) :
    Option (Table String) :=
  table.shrink resize.partitionNumber (resize.targetEndBytes + 1)

/-- The resizes, and then the commands for the table. -/
def runCommands (diskPath : String) (commands : StorageCommandPlan) (table : Table String) :
    Option (Table String) := do
  let table ← commands.ntfsResizes.foldlM shrinkPartition table
  commands.partition.foldlM (parted diskPath) table

end Running

end Installer
