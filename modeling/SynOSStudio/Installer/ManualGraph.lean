import SynOSStudio.Installer.Planning

/-!
# Manual storage graphs

Building the canonical graph of a manual layout, and validating the graph of a plan by
rebuilding it from the inventory.
-/

namespace Installer

open IntervalLists KeyedLists

variable (casing : Casing) (plan : StoragePlan) (disk : DiskInventory)
  (selection : ManualStorageSelection)

section Build

def existingReferences : List BlockReference :=
  if selection.reinitializeGpt then []
  else disk.partitions.map (partitionReference (diskId disk.stableId) disk.topologyDigest)

def isResized (partuuid : String) : Bool :=
  selection.resizedPartitions.any fun item => item.partuuid == partuuid

def preservedReferences : List BlockReference :=
  (existingReferences disk selection).filter fun item =>
    item.stableId ∉ selection.deletedPartuuids && !isResized selection item.stableId

def deletedReferences : List BlockReference :=
  (existingReferences disk selection).filter fun item =>
    item.stableId ∈ selection.deletedPartuuids

def partitionResizes : List PartitionResizeDeclaration :=
  (existingReferences disk selection).filterMap fun item =>
    (entry ManualPartitionResizeRequest.partuuid selection.resizedPartitions item.stableId).map
      fun request =>
        { targetReferenceId := item.referenceId
          filesystem := .ntfs
          originalSizeBytes := item.expectedSizeBytes
          targetSizeBytes := request.targetSizeMib * 1024 * 1024 }

def usedNumbers : List ℤ :=
  (disk.partitions.filter fun item => !selection.reinitializeGpt &&
    item.identity.partuuid ∉ selection.deletedPartuuids).map fun item => item.identity.number

def ManualPartitionRole.flags : ManualPartitionRole → List String
  | .efiSystem => ["esp"]
  | .root => []
  | .swap => ["swap"]

def declarePartition (request : ManualPartitionRequest) (number : ℤ) : PartitionDeclaration where
  partitionId := newPartitionId (diskId disk.stableId) number
  parentReferenceId := diskId disk.stableId
  number := number
  name := request.role.value
  startMib := request.startMib
  endMib := some request.endMib
  flags := request.role.flags

def declarePartitions : List PartitionDeclaration :=
  List.zipWith (declarePartition disk) selection.newPartitions
    (nextPartitionNumbers (usedNumbers disk selection) selection.newPartitions.length)

/-- The dictionary `partition_ids`. -/
def partitionIdOf (role : ManualPartitionRole) : Option String :=
  (entry PartitionDeclaration.name (declarePartitions disk selection) role.value).map
    PartitionDeclaration.partitionId

def manualEspId : Except String String :=
  if selection.reusedEspPartuuid != "" then do
    let item ← keyed selection.reusedEspPartuuid
      (entry BlockReference.stableId (existingReferences disk selection)
        selection.reusedEspPartuuid)
    return item.referenceId
  else keyed ManualPartitionRole.efiSystem.value (partitionIdOf disk selection .efiSystem)

def tableOperations : List StorageGraphOperation :=
  if selection.reinitializeGpt then [⟨.replacePartitionTable, diskId disk.stableId⟩]
  else
    (preservedReferences disk selection).map (fun item => ⟨.preserve, item.referenceId⟩) ++
    (deletedReferences disk selection).map (fun item => ⟨.deletePartition, item.referenceId⟩) ++
    (partitionResizes disk selection).map
      (fun item => ⟨.resizePartition, item.targetReferenceId⟩) ++
    [⟨.modifyPartitionTable, diskId disk.stableId⟩]

def manualGraph (inventoryDigest rootId espId : String) (mounts : List MountDeclaration) :
    StorageGraph where
  schemaVersion := STORAGE_GRAPH_SCHEMA_VERSION
  mode := .manual
  inventoryDigest := inventoryDigest
  partitionTable := "gpt"
  blockReferences := diskReference disk :: existingReferences disk selection
  partitions := declarePartitions disk selection
  partitionResizes := partitionResizes disk selection
  filesystems := declaredFilesystems plan rootId espId (selection.reusedEspPartuuid != "")
    (partitionIdOf disk selection .swap)
  subvolumes := rootSubvolumes plan rootId
  mounts := mounts
  bootTargets := [vendorBootTarget espId]
  operations := tableOperations disk selection ++
    creationOperations plan rootId espId (declarePartitions disk selection)
  requestedCapabilities := requestedCapabilities plan

def requestedSwapMib : ℤ :=
  match selection.newPartitions.find? fun item => item.role == .swap with
  | none => 0
  | some item => item.sizeMib

/-- Build a graph from one fully validated manual layout. -/
def buildManualStorageGraph (inventoryDigest : String) : Except String StorageGraph := do
  raiseIf (plan.mode != .manual) "Plan is not manual partitioning"
  raiseIf (plan.firmware != .uefi) "Manual partitioning currently requires UEFI"
  raiseIf (plan.diskStableId != disk.stableId || plan.diskSizeBytes != disk.expectedSizeBytes)
    "Inventory disk does not match the selected disk"
  raiseIf (plan.filesystem != selection.filesystem)
    "Manual root filesystem does not match the plan"
  validateManualSelection casing disk selection
  raiseIf (plan.swapSizeMib != requestedSwapMib selection)
    "Manual Swap size does not match the partition graph"
  let espId ← manualEspId disk selection
  let rootId ← keyed ManualPartitionRole.root.value (partitionIdOf disk selection .root)
  let mounts ← rootMounts plan rootId espId
  return manualGraph plan disk selection inventoryDigest rootId espId mounts

end Build

section Structure

def targets (graph : StorageGraph) (action : StorageGraphAction) : List String :=
  (graph.operations.filter fun item => item.action == action).map StorageGraphOperation.targetId

def referencesOf (graph : StorageGraph) (kind : BlockReferenceKind) : List BlockReference :=
  graph.blockReferences.filter fun item => item.kind == kind

def sameMembers (a b : List String) : Bool :=
  a.all (· ∈ b) && b.all (· ∈ a)

def ManualPartitionRole.ofName (name : String) : Option ManualPartitionRole :=
  [.efiSystem, .root, .swap].find? fun role => ManualPartitionRole.value role == name

/-- The geometry of the declarations, with `previous_end`. -/
def declaredGeometryInvalid (parent : String) : ℤ → List PartitionDeclaration → Bool
  | _, [] => false
  | previousEnd, item :: rest =>
    match item.endMib with
    | none => true
    | some «end» =>
      item.parentReferenceId != parent || item.startMib < 1 || «end» ≤ item.startMib ||
        item.startMib < previousEnd || declaredGeometryInvalid parent «end» rest

def resizeInvalid (references : List BlockReference) (item : PartitionResizeDeclaration) :
    Except String Bool := do
  let reference ← keyed item.targetReferenceId
    (entry BlockReference.referenceId references item.targetReferenceId)
  return item.filesystem != .ntfs || item.originalSizeBytes != reference.expectedSizeBytes ||
    item.targetSizeBytes % MIB != 0 || item.targetSizeBytes < 4 * 1024 * MIB ||
    item.originalSizeBytes ≤ item.targetSizeBytes

/-- Whether references are direct partitions of the disk. -/
def directPartitions (disk : BlockReference) (references : List BlockReference) : Bool :=
  references.all fun item => item.stableId != "" && item.parentReferenceId == disk.referenceId &&
    0 < item.expectedSizeBytes && 0 ≤ item.startBytes &&
    item.topologyDigest == disk.topologyDigest

def vendorOnly (graph : StorageGraph) : Except String BootTarget :=
  match graph.bootTargets with
  | [boot] => do
    raiseIf (boot.biosDiskReferenceId != "" || boot.fallbackPath != "" ||
        boot.vendorDirectory != "EFI/SynOS")
      "Manual boot target must use vendor-only UEFI writes"
    return boot
  | _ => .error "Manual graph requires one EFI boot target"

/-- Whether the operations on existing partitions fit the operation on the table. -/
def tableOperationsFit (graph : StorageGraph) (references : List BlockReference) :
    Except String Unit :=
  let replace := targets graph .replacePartitionTable
  let modify := targets graph .modifyPartitionTable
  let preserve := targets graph .preserve
  let delete := targets graph .deletePartition
  let resize := targets graph .resizePartition
  if !replace.isEmpty then
    raiseIf (replace.length != 1 || !modify.isEmpty || !references.isEmpty ||
        !preserve.isEmpty || !delete.isEmpty || !resize.isEmpty || !graph.partitionResizes.isEmpty)
      "Replacement GPT cannot preserve or delete individual partitions"
  else
    raiseIf (modify.length != 1 || preserve.any (· ∈ delete) || preserve.any (· ∈ resize) ||
        delete.any (· ∈ resize) ||
        !sameMembers (preserve ++ delete ++ resize) (references.map BlockReference.referenceId))
      "Every existing manual partition must be preserved, deleted or resized"

def validateManualGraphStructure (graph : StorageGraph) : Except String Unit :=
  let partitions := referencesOf graph .partition
  match referencesOf graph .disk with
  | [disk] => do
    raiseIf (graph.blockReferences.length != 1 + partitions.length)
      "Manual graph supports one disk and direct GPT partitions only"
    raiseIf (disk.stableId != plan.diskStableId || disk.expectedSizeBytes != plan.diskSizeBytes ||
        disk.parentReferenceId != "" || disk.startBytes != 0 || !isSha256 disk.topologyDigest ||
        graph.partitionTable != "gpt")
      "Manual disk reference does not match the selected GPT disk"
    raiseIf (!directPartitions disk partitions)
      "Manual graph contains an invalid partition reference"
    let _ ← vendorOnly graph
    raiseIf (graph.operations.any fun item =>
        item.action ∈ [.writeBiosBootloader, .writeFallbackBootFiles])
      "Manual graph contains an unsupported boot write"
    tableOperationsFit graph partitions
    let resized := graph.partitionResizes.map PartitionResizeDeclaration.targetReferenceId
    raiseIf (!decide resized.Nodup || !sameMembers resized (targets graph .resizePartition))
      "Manual resize declarations do not match resize operations"
    graph.partitionResizes.forM fun item => do
      let invalid ← resizeInvalid partitions item
      raiseIf invalid "Manual NTFS resize declaration is invalid"
    let roles := graph.partitions.map PartitionDeclaration.name
    raiseIf (roles.any (fun name => (ManualPartitionRole.ofName name).isNone) ||
        !decide roles.Nodup || roles.count ManualPartitionRole.root.value != 1)
      "Manual partition roles are invalid"
    raiseIf (declaredGeometryInvalid disk.referenceId (-1) graph.partitions)
      "Manual partition geometry is invalid"
    raiseIf (!sameMembers (targets graph .format)
        (graph.partitions.map PartitionDeclaration.partitionId))
      "Manual mode formats every new partition and no existing partition"
  | _ => .error "Manual graph supports one disk and direct GPT partitions only"

end Structure

section Revalidate

/-- The checks that every mode shares, before those of its own. -/
def validateGraphHeader : Except String StorageGraph :=
  match plan.graph with
  | none => .error "Storage graph is required"
  | some graph => do
    raiseIf (graph.schemaVersion != STORAGE_GRAPH_SCHEMA_VERSION)
      s!"Unsupported storage graph schema version {graph.schemaVersion}; expected 5"
    raiseIf (graph.mode.value != plan.mode.value) "Storage graph mode does not match"
    raiseIf (!isSha256 graph.inventoryDigest) "Invalid storage inventory digest"
    return graph

def requestFromDeclaration (item : PartitionDeclaration) : Except String ManualPartitionRequest := do
  let role ← keyed item.name (ManualPartitionRole.ofName item.name)
  return ⟨role, item.startMib, item.endMib.getD item.startMib⟩

/-- The layout that a graph describes. -/
def selectionFromGraph (graph : StorageGraph) : Except String ManualStorageSelection := do
  let referenceId := fun item : PartitionInventory =>
    existingPartitionReferenceId (diskId disk.stableId) item.identity.partuuid
  let espId ← match graph.bootTargets with
    | [] => .error "tuple index out of range"
    | boot :: _ => .ok boot.efiFilesystemId
  let requests ← graph.partitions.mapM requestFromDeclaration
  return {
    diskStableId := disk.stableId
    diskSizeBytes := disk.expectedSizeBytes
    diskTopologyDigest := disk.topologyDigest
    reinitializeGpt := !(targets graph .replacePartitionTable).isEmpty
    deletedPartuuids := (disk.partitions.filter fun item =>
      referenceId item ∈ targets graph .deletePartition).map fun item => item.identity.partuuid
    reusedEspPartuuid :=
      match entry BlockReference.referenceId (referencesOf graph .partition) espId with
      | none => ""
      | some reference => reference.stableId
    filesystem := plan.filesystem
    newPartitions := requests
    resizedPartitions := disk.partitions.filterMap fun item =>
      (entry PartitionResizeDeclaration.targetReferenceId graph.partitionResizes
        (referenceId item)).map fun declaration =>
          ⟨item.identity.partuuid, declaration.originalSizeBytes,
            declaration.targetSizeBytes / (1024 * 1024)⟩ }

/-- Rebuild a manual graph from the inventory or reject it as stale. -/
def validateManualStorageGraph (inventory : StorageInventory) : Except String DiskInventory := do
  let graph ← validateGraphHeader plan
  raiseIf (graph.mode != .manual) "Storage graph is not manual"
  validateManualGraphStructure plan graph
  let reference ← keyed "StopIteration" (referencesOf graph .disk).head?
  let disk ← verifyDiskTopology
    ⟨reference.stableId, reference.expectedSizeBytes, reference.topologyDigest⟩ inventory
  let selection ← selectionFromGraph plan disk graph
  let expected ← buildManualStorageGraph casing plan disk selection graph.inventoryDigest
  raiseIf (graph != expected) "Storage graph does not match the canonical manual layout"
  return disk

end Revalidate

end Installer
