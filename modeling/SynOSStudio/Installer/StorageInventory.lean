import Mathlib.Data.List.DropRight
import SynOSStudio.IntervalLists.Extents

/-!
# The inventory of a disk

The partitions and the free space that a probe of one disk reports.
-/

namespace Installer

open IntervalLists

def MIB : ℤ := 1024 * 1024
def GIB : ℤ := 1024 * MIB

/-- The case mappings of texts, of which nothing is assumed. -/
structure Casing where
  casefold : String → String
  lower : String → String

structure PartitionIdentity where
  path : String
  number : ℤ
  partuuid : String
  startBytes : ℤ
  sizeBytes : ℤ
  deriving DecidableEq

structure PartitionInventory where
  identity : PartitionIdentity
  partitionType : String
  filesystemType : String
  filesystemUuid : String
  mountpoints : List String
  flags : List String
  deriving DecidableEq

structure FreeExtent where
  startBytes : ℤ
  sizeBytes : ℤ
  deriving DecidableEq

/-- A disk with the part of its identity that is compared. -/
structure DiskInventory where
  stableId : String
  expectedSizeBytes : ℤ
  partitionTable : String
  partitionTableUuid : String
  partitions : List PartitionInventory
  freeExtents : List FreeExtent
  topologyDigest : String
  geometryProbeError : String
  unsupportedDescendantTypes : List String
  deriving DecidableEq

section Types

def EFI_SYSTEM_PARTITION_GUID : String := "c12a7328-f81f-11d2-ba4b-00a0c93ec93b"

/-- `str.strip("{}")` -/
def stripBraces (text : String) : String :=
  let isBrace := fun c : Char => c == '\x7b' || c == '\x7d'
  String.ofList ((text.toList.dropWhile isBrace).rdropWhile isBrace)

variable (casing : Casing)

def PartitionInventory.isEfiSystemPartition (p : PartitionInventory) : Bool :=
  casing.lower (stripBraces p.partitionType) == EFI_SYSTEM_PARTITION_GUID || "esp" ∈ p.flags

def PartitionInventory.isEfiFilesystemCandidate (p : PartitionInventory) : Bool :=
  p.isEfiSystemPartition casing &&
    casing.lower p.filesystemType ∈ ["fat", "fat16", "fat32", "vfat"]

def PartitionInventory.isBitlockerPartition (p : PartitionInventory) : Bool :=
  casing.lower p.filesystemType == "bitlocker"

end Types

section Ranges

/-- The bytes of a range with this start and size. -/
def byteRange (startBytes sizeBytes : ℤ) : Extent ℤ := ⟨startBytes, startBytes + sizeBytes⟩

def PartitionInventory.range (p : PartitionInventory) : Extent ℤ :=
  byteRange p.identity.startBytes p.identity.sizeBytes

def FreeExtent.range (e : FreeExtent) : Extent ℤ :=
  byteRange e.startBytes e.sizeBytes

def DiskInventory.ranges (disk : DiskInventory) : List (Extent ℤ) :=
  disk.partitions.map PartitionInventory.range ++ disk.freeExtents.map FreeExtent.range

/-- Partitions and free extents are pairwise disjoint byte ranges inside the disk. -/
structure DiskInventory.Partitioned (disk : DiskInventory) : Prop where
  disjoint : disk.ranges.Pairwise fun a b => Disjoint a.points b.points
  inside : ∀ r ∈ disk.ranges, 0 ≤ r.start ∧ r.start ≤ r.stop ∧ r.stop ≤ disk.expectedSizeBytes

end Ranges

end Installer
