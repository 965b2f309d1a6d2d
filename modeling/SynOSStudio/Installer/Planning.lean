import SynOSStudio.Installer.ManualLayout
import SynOSStudio.KeyedLists.Dictionaries

/-!
# Planning a storage graph

What the planners of the guided and of the manual mode share: the part of the plan that they
read, the names of block devices, the numbers of new partitions and the mounts of the root.
-/

namespace Installer

open IntervalLists

def STORAGE_GRAPH_SCHEMA_VERSION : ℤ := 5

/-- The part of an installation plan that the storage planners read. -/
structure StoragePlan where
  mode : InstallMode
  architecture : Architecture
  firmware : Firmware
  secureBoot : SecureBoot
  diskStableId : String
  diskSizeBytes : ℤ
  filesystem : Filesystem
  espSizeMib : ℤ
  swapSizeMib : ℤ
  graph : Option StorageGraph

structure StorageInventory where
  disks : List DiskInventory

/-- `KeyError` of a dictionary that lacks the key. -/
def keyed {α : Type} (key : String) : Option α → Except String α
  | none => .error key
  | some value => .ok value

def StorageInventory.disk (inventory : StorageInventory) (stableId : String) :
    Except String DiskInventory :=
  keyed stableId (inventory.disks.find? fun item => item.stableId = stableId)

structure DiskTopologyBinding where
  stableId : String
  expectedSizeBytes : ℤ
  topologyDigest : String

/-- Resolve a binding or reject changed or missing topology. -/
def verifyDiskTopology (binding : DiskTopologyBinding) (inventory : StorageInventory) :
    Except String DiskInventory :=
  match inventory.disk binding.stableId with
  | .error _ => .error "Selected disk is no longer present"
  | .ok disk => do
    raiseIf (disk.expectedSizeBytes != binding.expectedSizeBytes) "Selected disk size changed"
    raiseIf (disk.topologyDigest != binding.topologyDigest) "Selected disk topology changed"
    return disk

/-- `SHA256_RE.fullmatch` -/
def isSha256 (text : String) : Bool :=
  text.length == 64 &&
    text.toList.all fun c => ('0' ≤ c && c ≤ '9') || ('a' ≤ c && c ≤ 'f')

section Numerals

def digitsNumber (digits : List Char) : Option ℕ :=
  if digits ≠ [] ∧ digits.all Char.isDigit then some (Nat.ofDigitChars 10 digits 0) else none

/-- `int(text)` of a text that `str` wrote. -/
def decimalNumber (text : String) : Option ℤ :=
  match text.toList with
  | '-' :: digits => (digitsNumber digits).map fun n => -(n : ℤ)
  | digits => (digitsNumber digits).map Int.ofNat

theorem digitsNumber_toDigits (n : ℕ) : digitsNumber (Nat.toDigits 10 n) = some n := by
  have hdigits : (Nat.toDigits 10 n).all Char.isDigit = true :=
    List.all_eq_true.mpr fun c hc => Nat.isDigit_of_mem_toDigits (by decide) (by decide) hc
  unfold digitsNumber
  rw [if_pos ⟨Nat.toDigits_ne_nil, hdigits⟩, Nat.ofDigitChars_toDigits (by decide) (by decide)]

theorem decimalNumber_repr (n : ℤ) : decimalNumber n.repr = some n := by
  cases n with
  | ofNat m =>
    have htext : (Int.repr (Int.ofNat m)).toList = Nat.toDigits 10 m := by
      simp [Int.repr, Nat.repr]
    unfold decimalNumber
    rw [htext]
    split
    · rename_i digits h
      have hsign : '-' ∈ Nat.toDigits 10 m := h ▸ List.mem_cons_self
      have hdigit := Nat.isDigit_of_mem_toDigits (by decide) (by decide) hsign
      cases hdigit
    · rw [digitsNumber_toDigits]
      rfl
  | negSucc m =>
    have htext : (Int.repr (Int.negSucc m)).toList = '-' :: Nat.toDigits 10 (m + 1) := by
      simp [Int.repr, Nat.repr]
    unfold decimalNumber
    rw [htext]
    simp only [digitsNumber_toDigits]
    rfl

theorem repr_inj {a b : ℤ} : a.repr = b.repr ↔ a = b := by
  constructor
  · intro h
    have hnumbers := congrArg decimalNumber h
    rw [decimalNumber_repr, decimalNumber_repr] at hnumbers
    exact Option.some.inj hnumbers
  · rintro rfl
    rfl

end Numerals

section References

def diskId (stableId : String) : String := "disk:" ++ stableId

def existingPartitionReferenceId (diskId partuuid : String) : String :=
  diskId ++ ":existing-partition:" ++ partuuid

def newPartitionId (diskId : String) (number : ℤ) : String :=
  diskId ++ ":new-partition:" ++ number.repr

def diskReference (disk : DiskInventory) : BlockReference where
  referenceId := diskId disk.stableId
  kind := .disk
  stableId := disk.stableId
  parentReferenceId := ""
  expectedSizeBytes := disk.expectedSizeBytes
  startBytes := 0
  topologyDigest := disk.topologyDigest

def partitionReference (diskId topologyDigest : String) (partition : PartitionInventory) :
    BlockReference where
  referenceId := existingPartitionReferenceId diskId partition.identity.partuuid
  kind := .partition
  stableId := partition.identity.partuuid
  parentReferenceId := diskId
  expectedSizeBytes := partition.identity.sizeBytes
  startBytes := partition.identity.startBytes
  topologyDigest := topologyDigest

theorem existingPartitionReferenceId_inj {disk a b : String} :
    existingPartitionReferenceId disk a = existingPartitionReferenceId disk b ↔ a = b := by
  unfold existingPartitionReferenceId
  rw [String.append_right_inj]

/-- An existing partition never has the name of a new one. -/
theorem existing_ne_new (disk partuuid : String) (number : ℤ) :
    existingPartitionReferenceId disk partuuid ≠ newPartitionId disk number := by
  unfold existingPartitionReferenceId newPartitionId
  intro h
  rw [String.append_assoc, String.append_assoc, String.append_right_inj] at h
  have hlist := congrArg String.toList h
  simp [String.toList_append] at hlist

end References

section Numbers

/-- The loop of `_next_partition_numbers`; each turn spends fuel. -/
def nextNumbers (used : List ℤ) : ℕ → ℤ → ℕ → List ℤ
  | 0, _, _ => []
  | _ + 1, _, 0 => []
  | fuel + 1, candidate, count + 1 =>
    if candidate ∈ used then nextNumbers used fuel (candidate + 1) (count + 1)
    else candidate :: nextNumbers used fuel (candidate + 1) count

/-- No more turns are needed than there are used numbers and numbers to find. -/
def nextPartitionNumbers (used : List ℤ) (count : ℕ) : List ℤ :=
  nextNumbers used (used.length + count) 1 count

variable {used : List ℤ} {fuel count : ℕ} {candidate n : ℤ}

theorem nextNumbers_spec (h : n ∈ nextNumbers used fuel candidate count) :
    candidate ≤ n ∧ n ∉ used := by
  induction fuel generalizing candidate count with
  | zero => simp [nextNumbers] at h
  | succ fuel ih =>
    cases count with
    | zero => simp [nextNumbers] at h
    | succ count =>
      simp only [nextNumbers] at h
      split at h
      · have hrest := ih h
        exact ⟨by omega, hrest.2⟩
      · rename_i hfree
        rcases List.mem_cons.mp h with rfl | h
        · exact ⟨le_rfl, hfree⟩
        · have hrest := ih h
          exact ⟨by omega, hrest.2⟩

theorem nextNumbers_nodup : (nextNumbers used fuel candidate count).Nodup := by
  induction fuel generalizing candidate count with
  | zero => simp [nextNumbers]
  | succ fuel ih =>
    cases count with
    | zero => simp [nextNumbers]
    | succ count =>
      simp only [nextNumbers]
      split
      · exact ih
      · refine List.nodup_cons.mpr ⟨fun h => ?_, ih⟩
        have hlater := (nextNumbers_spec h).1
        omega

/-- A used candidate is no longer among the used numbers that can still be met. -/
theorem filter_lt_of_mem (hused : candidate ∈ used) :
    (used.filter fun u => decide (candidate + 1 ≤ u)).length <
      (used.filter fun u => decide (candidate ≤ u)).length := by
  have hsplit : used.filter (fun u => decide (candidate + 1 ≤ u)) =
      (used.filter fun u => decide (candidate ≤ u)).filter fun u => decide (candidate + 1 ≤ u) := by
    rw [List.filter_filter]
    apply List.filter_congr
    intro u _
    simp only [Bool.and_eq_decide, decide_eq_true_eq, decide_eq_decide]
    omega
  rw [hsplit, List.length_filter_lt_length_iff_exists]
  exact ⟨candidate, by simpa using hused, by simp⟩

theorem nextNumbers_length
    (hfuel : (used.filter fun u => decide (candidate ≤ u)).length + count ≤ fuel) :
    (nextNumbers used fuel candidate count).length = count := by
  induction fuel generalizing candidate count with
  | zero =>
    have hzero : count = 0 := by omega
    simp [nextNumbers, hzero]
  | succ fuel ih =>
    cases count with
    | zero => simp [nextNumbers]
    | succ count =>
      have hle : (used.filter fun u => decide (candidate + 1 ≤ u)).length ≤
          (used.filter fun u => decide (candidate ≤ u)).length := by
        apply List.Sublist.length_le
        apply List.monotone_filter_right
        intro u hu
        simp only [decide_eq_true_eq] at hu ⊢
        omega
      simp only [nextNumbers]
      split
      · rename_i hused
        apply ih
        have hlt := filter_lt_of_mem hused
        omega
      · simp only [List.length_cons, Nat.add_right_cancel_iff]
        apply ih
        omega

@[simp] theorem nextPartitionNumbers_length (used : List ℤ) (count : ℕ) :
    (nextPartitionNumbers used count).length = count := by
  apply nextNumbers_length
  have hle := List.length_filter_le (fun u => decide ((1 : ℤ) ≤ u)) used
  omega

theorem nextPartitionNumbers_free (h : n ∈ nextPartitionNumbers used count) : n ∉ used :=
  (nextNumbers_spec h).2

theorem nextPartitionNumbers_nodup : (nextPartitionNumbers used count).Nodup :=
  nextNumbers_nodup

end Numbers

section Root

structure BtrfsSubvolume where
  name : String
  mountPoint : String
  rollbackWithSystem : Bool

def BTRFS_SUBVOLUMES : List BtrfsSubvolume :=
  [⟨"@root", "/", true⟩,
    ⟨"@home", "/home", false⟩,
    ⟨"@log", "/var/log", false⟩,
    ⟨"@snapshots", "/.snapshots", false⟩,
    ⟨"@containers", "/var/lib/containers", false⟩,
    ⟨"@libvirt", "/var/lib/libvirt/images", false⟩]

/-- `_mount_role` -/
def mountRoleAt (mountPoint : String) : Except String MountRole :=
  match mountPoint with
  | "/" => .ok .root
  | "/home" => .ok .home
  | "/var/log" => .ok .log
  | "/.snapshots" => .ok .snapshots
  | "/var/lib/containers" => .ok .containers
  | "/var/lib/libvirt/images" => .ok .virtualMachines
  | _ => .error mountPoint

/-- `GraphFilesystem(filesystem.value)` -/
def Filesystem.graphFilesystem : Filesystem → GraphFilesystem
  | .btrfs => .btrfs
  | .ext4 => .ext4
  | .xfs => .xfs
  | .f2fs => .f2fs

variable (plan : StoragePlan) (rootId espId : String)

def rootSubvolumes : List SubvolumeDeclaration :=
  if plan.filesystem = .btrfs then
    BTRFS_SUBVOLUMES.map fun item =>
      { subvolumeId := rootId ++ ":subvolume:" ++ item.name
        filesystemId := rootId
        name := item.name
        mountPoint := item.mountPoint
        rollbackWithSystem := item.rollbackWithSystem }
  else []

def rootMounts : Except String (List MountDeclaration) := do
  let mounts ←
    if plan.filesystem = .btrfs then
      (rootSubvolumes plan rootId).mapM fun item => do
        let role ← mountRoleAt item.mountPoint
        return ⟨item.subvolumeId, item.mountPoint, role⟩
    else .ok [⟨rootId, "/", .root⟩]
  return mounts ++ [⟨espId, "/boot/efi", .efi⟩]

/-- The filesystems in the order of their declarations. -/
def declaredFilesystems (espReused : Bool) (swapId : Option String) : List FilesystemDeclaration :=
  [⟨espId, espId, .vfat, if espReused then "" else "SYNOS_EFI"⟩] ++
    swapId.toList.map (fun id => ⟨id, id, .swap, "synos-swap"⟩) ++
    [⟨rootId, rootId, plan.filesystem.graphFilesystem, "synos"⟩]

def requestedCapabilities : List StorageCapability :=
  if plan.filesystem = .btrfs then [.bootable, .systemRollback, .snapshotManagement]
  else [.bootable]

/-- The operations after the partition table: creation, formats, subvolumes and boot files. -/
def creationOperations (partitions : List PartitionDeclaration) : List StorageGraphOperation :=
  partitions.map (fun item => ⟨.createPartition, item.partitionId⟩) ++
    partitions.map (fun item => ⟨.format, item.partitionId⟩) ++
    (rootSubvolumes plan rootId).map (fun item => ⟨.createSubvolume, item.subvolumeId⟩) ++
    [⟨.configureMounts, rootId⟩, ⟨.writeBootFiles, espId⟩, ⟨.updateNvram, espId⟩]

/-- The only boot target: the vendor directory of an EFI filesystem. -/
def vendorBootTarget : BootTarget where
  efiFilesystemId := espId
  biosDiskReferenceId := ""
  vendorDirectory := "EFI/SynOS"
  fallbackPath := ""

end Root

end Installer
