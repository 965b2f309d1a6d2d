import SynOSStudio.Installer.ManualGraph

/-!
# Guided coexistence graphs

Which disks may take a second system beside what they hold, building the graph that uses one
free extent of such a disk, and validating the graph of a plan by rebuilding it.
-/

namespace Installer

open IntervalLists KeyedLists

def MINIMUM_DISK_SWAP_MIB : ℤ := 2 * 1024
def GUIDED_ROOT_MINIMUM_BYTES : ℤ := MINIMUM_ROOT_MIB * MIB
def GUIDED_MINIMUM_SWAP_BYTES : ℤ := MINIMUM_DISK_SWAP_MIB * MIB
def GUIDED_ESP_BYTES : ℤ := 1024 * MIB
def GUIDED_ALIGNMENT_RESERVE_BYTES : ℤ := 4 * MIB
def MINIMUM_REUSABLE_ESP_BYTES : ℤ := 100 * MIB

inductive CoexistenceStatus where
  | available
  | actionRequired
  | unsupported
  deriving DecidableEq

inductive CoexistenceBlocker where
  | legacyFirmware
  | nonGptDisk
  | incompleteGeometry
  | unstableIdentities
  | unsupportedMapping
  | diskInUse
  | noSuitableFreeSpace
  deriving DecidableEq

structure FreeSpaceCandidate where
  extent : FreeExtent
  requiredBytes : ℤ
  requiresReusedEsp : Bool
  deriving DecidableEq

structure CoexistenceDecision where
  status : CoexistenceStatus
  blockers : List CoexistenceBlocker
  espCandidates : List PartitionInventory
  freeSpaceCandidates : List FreeSpaceCandidate

section Eligibility

variable (casing : Casing) (disk : DiskInventory)

def freeSpaceCandidate (hasEspCandidate : Bool) (extent : FreeExtent) :
    Option FreeSpaceCandidate :=
  let withReusedEsp :=
    GUIDED_ROOT_MINIMUM_BYTES + GUIDED_MINIMUM_SWAP_BYTES + GUIDED_ALIGNMENT_RESERVE_BYTES
  let withNewEsp := withReusedEsp + GUIDED_ESP_BYTES
  if withNewEsp ≤ extent.sizeBytes then some ⟨extent, withNewEsp, false⟩
  else if hasEspCandidate && withReusedEsp ≤ extent.sizeBytes then
    some ⟨extent, withReusedEsp, true⟩
  else none

def freeSpaceCandidates (hasEspCandidate : Bool) : List FreeSpaceCandidate :=
  (disk.freeExtents.filterMap (freeSpaceCandidate hasEspCandidate)).insertionSort fun a b =>
    a.extent.startBytes < b.extent.startBytes ∨
      (a.extent.startBytes = b.extent.startBytes ∧ a.extent.sizeBytes ≤ b.extent.sizeBytes)

def espCandidates : List PartitionInventory :=
  disk.partitions.filter fun item => item.isEfiFilesystemCandidate casing &&
    item.identity.partuuid != "" && item.filesystemUuid != "" &&
    MINIMUM_REUSABLE_ESP_BYTES ≤ item.identity.sizeBytes

/-- Each blocker with its condition, in the order of the checks. -/
def blockerConditions (firmware : Firmware) (candidates : List FreeSpaceCandidate) :
    List (Bool × CoexistenceBlocker) :=
  let partuuids := disk.partitions.map fun item => item.identity.partuuid
  [(firmware != .uefi, .legacyFirmware),
    (disk.partitionTable != "gpt", .nonGptDisk),
    (disk.geometryProbeError != "", .incompleteGeometry),
    (disk.partitionTableUuid == "" || partuuids.any (· == "") || !decide partuuids.Nodup,
      .unstableIdentities),
    (!disk.unsupportedDescendantTypes.isEmpty, .unsupportedMapping),
    (disk.partitions.any fun item => !item.mountpoints.isEmpty, .diskInUse),
    (candidates.isEmpty, .noSuitableFreeSpace)]

def coexistenceBlockers (firmware : Firmware) (candidates : List FreeSpaceCandidate) :
    List CoexistenceBlocker :=
  ((blockerConditions disk firmware candidates).filter Prod.fst).map Prod.snd

def CoexistenceBlocker.isHard : CoexistenceBlocker → Bool
  | .legacyFirmware | .nonGptDisk | .incompleteGeometry | .unstableIdentities
  | .unsupportedMapping => true
  | .diskInUse | .noSuitableFreeSpace => false

def analyzeGuidedCoexistence (firmware : Firmware) : CoexistenceDecision :=
  let esps := espCandidates casing disk
  let candidates := freeSpaceCandidates disk (!esps.isEmpty)
  let blockers := coexistenceBlockers disk firmware candidates
  { status :=
      if blockers.any CoexistenceBlocker.isHard then .unsupported
      else if !blockers.isEmpty then .actionRequired
      else .available
    blockers := blockers
    espCandidates := esps
    freeSpaceCandidates := candidates }

end Eligibility

section Build

-- `FreeExtent.extent_id`, the digest of its disk, start and size, is a parameter
variable (extentId : FreeExtent → String)
variable (casing : Casing) (plan : StoragePlan) (disk : DiskInventory) (extent : FreeExtent)
  (reusedEsp : Option PartitionInventory)

def freeExtentReferenceId : String := "free-extent:" ++ extentId extent

def freeExtentReference : BlockReference where
  referenceId := freeExtentReferenceId extentId extent
  kind := .freeExtent
  stableId := extentId extent
  parentReferenceId := diskId disk.stableId
  expectedSizeBytes := extent.sizeBytes
  startBytes := extent.startBytes
  topologyDigest := disk.topologyDigest

def guidedNames : List ManualPartitionRole :=
  (if reusedEsp.isNone then [.efiSystem] else []) ++
    (if plan.swapSizeMib ≠ 0 then [.swap] else []) ++ [.root]

/-- The declarations from a cursor on: all but the root have a size of their own. -/
def declareFrom (endMib : ℤ) : ℤ → List (ManualPartitionRole × ℤ) → List PartitionDeclaration
  | _, [] => []
  | cursor, (role, number) :: rest =>
    let partEnd := match role with
      | .efiSystem => cursor + plan.espSizeMib
      | .swap => cursor + plan.swapSizeMib
      | .root => endMib
    { partitionId := newPartitionId (diskId disk.stableId) number
      parentReferenceId := freeExtentReferenceId extentId extent
      number := number
      name := role.value
      startMib := cursor
      endMib := some partEnd
      flags := role.flags } :: declareFrom endMib partEnd rest

def guidedNumbers : List ℤ :=
  nextPartitionNumbers (disk.partitions.map fun item => item.identity.number)
    (guidedNames plan reusedEsp).length

def guidedPartitions : List PartitionDeclaration :=
  declareFrom extentId plan disk extent ((extent.startBytes + extent.sizeBytes) / MIB)
    ((extent.startBytes + MIB - 1) / MIB)
    ((guidedNames plan reusedEsp).zip (guidedNumbers plan disk reusedEsp))

def guidedIdOf (role : ManualPartitionRole) : Option String :=
  (entry PartitionDeclaration.name (guidedPartitions extentId plan disk extent reusedEsp)
    role.value).map PartitionDeclaration.partitionId

def guidedReferences : List BlockReference :=
  disk.partitions.map (partitionReference (diskId disk.stableId) disk.topologyDigest)

def guidedEspId : Except String String :=
  match reusedEsp with
  | some esp => .ok (existingPartitionReferenceId (diskId disk.stableId) esp.identity.partuuid)
  | none => keyed ManualPartitionRole.efiSystem.value
      (guidedIdOf extentId plan disk extent reusedEsp .efiSystem)

def guidedGraph (inventoryDigest rootId espId : String) (mounts : List MountDeclaration) :
    StorageGraph where
  schemaVersion := STORAGE_GRAPH_SCHEMA_VERSION
  mode := .guidedCoexistence
  inventoryDigest := inventoryDigest
  partitionTable := "gpt"
  blockReferences := diskReference disk :: (guidedReferences disk ++
    [freeExtentReference extentId disk extent])
  partitions := guidedPartitions extentId plan disk extent reusedEsp
  partitionResizes := []
  filesystems := declaredFilesystems plan rootId espId reusedEsp.isSome
    (guidedIdOf extentId plan disk extent reusedEsp .swap)
  subvolumes := rootSubvolumes plan rootId
  mounts := mounts
  bootTargets := [vendorBootTarget espId]
  operations := (guidedReferences disk).map (fun item => ⟨.preserve, item.referenceId⟩) ++
    [⟨.modifyPartitionTable, diskId disk.stableId⟩] ++
    creationOperations plan rootId espId (guidedPartitions extentId plan disk extent reusedEsp)
  requestedCapabilities := requestedCapabilities plan

/-- The space that is left for the root. -/
def rootTooSmall (partitions : List PartitionDeclaration) : Bool :=
  match partitions.find? fun item => item.name == ManualPartitionRole.root.value with
  | none => true
  | some root =>
    match root.endMib with
    | none => true
    | some «end» => («end» - root.startMib) * MIB < GUIDED_ROOT_MINIMUM_BYTES

/-- Describe a layout in free space only. -/
def buildGuidedCoexistenceStorageGraph (inventoryDigest : String) : Except String StorageGraph := do
  raiseIf (plan.mode != .guidedCoexistence) "Plan is not guided coexistence"
  raiseIf (plan.diskStableId != disk.stableId || plan.diskSizeBytes != disk.expectedSizeBytes)
    "Inventory disk does not match the selected disk"
  let decision := analyzeGuidedCoexistence casing disk plan.firmware
  raiseIf (decision.status != .available) "Selected disk is not eligible for guided coexistence"
  let candidate ← match decision.freeSpaceCandidates.find? fun item =>
      extentId item.extent == extentId extent with
    | none => .error "Selected free extent is not eligible"
    | some candidate => .ok candidate
  raiseIf (reusedEsp.any (· ∉ decision.espCandidates))
    "Selected EFI System Partition is not reusable"
  raiseIf (candidate.requiresReusedEsp && reusedEsp.isNone)
    "Selected free extent requires a reusable ESP"
  raiseIf (rootTooSmall (guidedPartitions extentId plan disk extent reusedEsp))
    "Selected free extent leaves less than 20 GiB for root"
  let espId ← guidedEspId extentId plan disk extent reusedEsp
  let rootId ← keyed ManualPartitionRole.root.value
    (guidedIdOf extentId plan disk extent reusedEsp .root)
  let mounts ← rootMounts plan rootId espId
  return guidedGraph extentId plan disk extent reusedEsp inventoryDigest rootId espId mounts

end Build

section Revalidate

variable (extentId : FreeExtent → String) (casing : Casing) (plan : StoragePlan)

/-- The loop over the created partitions, with `previous_end`. -/
def escapesExtent (parent : String) (extentEnd : ℤ) : ℤ → List PartitionDeclaration → Bool
  | _, [] => false
  | previousEnd, item :: rest =>
    match item.endMib with
    | none => true
    | some «end» =>
      item.parentReferenceId != parent || item.startMib < previousEnd ||
        «end» ≤ item.startMib || extentEnd < «end» || escapesExtent parent extentEnd «end» rest

def validateGuidedGraphStructure (graph : StorageGraph) : Except String Unit :=
  let partitions := referencesOf graph .partition
  match referencesOf graph .disk, referencesOf graph .freeExtent with
  | [disk], [extent] => do
    raiseIf (graph.blockReferences.length != 2 + partitions.length)
      "Coexistence graph contains an unsupported reference kind"
    raiseIf (disk.stableId != plan.diskStableId || disk.expectedSizeBytes != plan.diskSizeBytes ||
        disk.parentReferenceId != "" || disk.startBytes != 0 || !isSha256 disk.topologyDigest)
      "Coexistence disk reference does not match the selected disk"
    raiseIf (graph.partitionTable != "gpt" || extent.parentReferenceId != disk.referenceId ||
        extent.expectedSizeBytes ≤ 0 || extent.startBytes < 0 ||
        extent.topologyDigest != disk.topologyDigest || !isSha256 extent.stableId)
      "Invalid coexistence free extent"
    raiseIf (!directPartitions disk partitions) "Invalid preserved partition reference"
    match graph.bootTargets with
    | [boot] =>
      raiseIf (boot.biosDiskReferenceId != "" || boot.fallbackPath != "" ||
          boot.vendorDirectory != "EFI/SynOS")
        "Coexistence boot target cannot use BIOS or fallback paths"
    | _ => .error "Coexistence graph requires one EFI boot target"
    raiseIf (targets graph .preserve != partitions.map BlockReference.referenceId)
      "Every existing partition must be explicitly preserved"
    raiseIf (graph.operations.any fun item => item.action ∈
        [.replacePartitionTable, .writeBiosBootloader, .writeFallbackBootFiles])
      "Coexistence graph contains a whole-disk or fallback write"
    raiseIf (escapesExtent extent.referenceId
        ((extent.startBytes + extent.expectedSizeBytes) / MIB)
        ((extent.startBytes + MIB - 1) / MIB) graph.partitions)
      "Created partition escapes the selected free extent"
  | _, _ => .error "Coexistence graph requires one disk and one free extent"

/-- The existing EFI partition that a graph boots from, if it reuses one. -/
def reusedEspOf (disk : DiskInventory) (graph : StorageGraph) :
    Except String (Option PartitionInventory) :=
  match graph.bootTargets with
  | [] => .error "tuple index out of range"
  | boot :: _ =>
    match entry BlockReference.referenceId (referencesOf graph .partition) boot.efiFilesystemId with
    | none => .ok none
    | some reference =>
      match disk.partitions.find? fun item => item.identity.partuuid == reference.stableId with
      | none => .error "Selected EFI System Partition changed"
      | some esp => .ok (some esp)

/-- Rebuild a guided graph from the inventory or reject it as stale. -/
def validateGuidedCoexistenceGraph (inventory : StorageInventory) :
    Except String DiskInventory := do
  let graph ← validateGraphHeader plan
  raiseIf (graph.mode != .guidedCoexistence) "Storage graph is not coexistence"
  validateGuidedGraphStructure plan graph
  let reference ← keyed "StopIteration" (referencesOf graph .disk).head?
  let disk ← verifyDiskTopology
    ⟨reference.stableId, reference.expectedSizeBytes, reference.topologyDigest⟩ inventory
  let extentReference ← keyed "StopIteration" (referencesOf graph .freeExtent).head?
  let extent ← match disk.freeExtents.find? fun item =>
      extentId item == extentReference.stableId && item.startBytes == extentReference.startBytes &&
        item.sizeBytes == extentReference.expectedSizeBytes with
    | none => .error "Selected free extent changed"
    | some extent => .ok extent
  let reusedEsp ← reusedEspOf disk graph
  let expected ← buildGuidedCoexistenceStorageGraph extentId casing plan disk extent reusedEsp
    graph.inventoryDigest
  raiseIf (graph != expected) "Storage graph does not match the canonical coexistence plan"
  return disk

end Revalidate

end Installer
