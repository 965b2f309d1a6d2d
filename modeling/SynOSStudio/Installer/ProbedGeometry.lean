import SynOSStudio.Installer.TableReadings
import SynOSStudio.Installer.VerifiedResults
import SynOSStudio.KeyedLists.StableOrder

/-!
# Probed geometry

What the inventory of a disk says of a table that `parted` prints and of which `lsblk` lists the
partitions, compared with the table.
-/

namespace Installer

open TextLines KeyedLists

section CrossCheck

variable {casing : Casing} {table : GptTable} {children : List LsblkChild}

/-- `lsblk` lists the partitions of the table. -/
def ListsPartitions (children : List LsblkChild) (table : GptTable) : Prop :=
  ((children.filter fun child => child.type = "part").map LsblkChild.partn).Perm
    (table.partitions.map fun p => some (p.number : ℤ))

theorem sortedNumbers_eq_iff {a b : List ℤ} :
    sortedNumbers a = sortedNumbers b ↔ ∀ n, n ∈ a ↔ n ∈ b := by
  constructor
  · intro h n
    have hmem (l : List ℤ) : n ∈ sortedNumbers l ↔ n ∈ l := by
      rw [sortedNumbers, List.mem_insertionSort, List.mem_dedup]
    rw [← hmem a, h, hmem b]
  · intro h
    exact insertionSort_eq_of_perm <|
      (List.perm_ext_iff_of_nodup a.nodup_dedup b.nodup_dedup).mpr fun n => by
        rw [List.mem_dedup, List.mem_dedup, h n]

theorem mem_readItems {item : PartedPartition} :
    item ∈ table.readItems casing ↔
      ∃ p ∈ table.partitions, ¬ p.Lost casing ∧ p.item = item := by
  simp only [GptTable.readItems, List.mem_filterMap, GptPartition.reading_item]
  refine exists_congr fun p => and_congr_right fun _ => ?_
  split <;> simp_all

theorem ListsPartitions.mem_numbers (hlist : ListsPartitions children table) (n : ℤ) :
    n ∈ (children.filter fun child => child.type = "part").map LsblkChild.number ↔
      ∃ p ∈ table.partitions, (p.number : ℤ) = n := by
  have hmap := hlist.map nonnegativeInt
  rw [List.map_map, List.map_map] at hmap
  rw [show LsblkChild.number = nonnegativeInt ∘ LsblkChild.partn from rfl, hmap.mem_iff,
    List.mem_map]
  refine exists_congr fun p => and_congr_right fun _ => ?_
  simp [nonnegativeInt]

theorem mem_readNumbers (n : ℤ) :
    n ∈ ((table.readItems casing).insertionSort byNumber).map PartedPartition.number ↔
      ∃ p ∈ table.partitions, ¬ p.Lost casing ∧ (p.number : ℤ) = n := by
  simp only [List.mem_map, List.mem_insertionSort, mem_readItems]
  constructor
  · rintro ⟨_, ⟨p, hp, hlost, rfl⟩, rfl⟩
    exact ⟨p, hp, hlost, rfl⟩
  · rintro ⟨p, hp, hlost, rfl⟩
    exact ⟨p.item, ⟨p, hp, hlost, rfl⟩, rfl⟩

/-- The two tools list the same numbers if and only if no row is lost. -/
theorem sortedNumbers_eq_iff_not_lost (hvalid : table.Valid casing)
    (hlist : ListsPartitions children table) :
    sortedNumbers (((children.filter fun child => child.type = "part").map
        LsblkChild.number).filter (0 < ·)) = sortedNumbers
          (((table.readItems casing).insertionSort byNumber).map PartedPartition.number) ↔
      ∀ p ∈ table.partitions, ¬ p.Lost casing := by
  rw [sortedNumbers_eq_iff]
  constructor
  · intro h p hp
    have hread := (h p.number).mp (List.mem_filter.mpr ⟨(hlist.mem_numbers _).mpr ⟨p, hp, rfl⟩,
      by simpa using (hvalid.partitions p hp).number.1⟩)
    obtain ⟨q, hq, hlost, heq⟩ := (mem_readNumbers _).mp hread
    rwa [List.inj_on_of_nodup_map hvalid.numbers hq hp (by exact_mod_cast heq)] at hlost
  · intro h n
    rw [List.mem_filter, hlist.mem_numbers, mem_readNumbers]
    constructor
    · rintro ⟨⟨p, hp, heq⟩, -⟩
      exact ⟨p, hp, h p hp, heq⟩
    · rintro ⟨p, hp, -, rfl⟩
      exact ⟨⟨p, hp, rfl⟩, by simpa using (hvalid.partitions p hp).number.1⟩

/-- A row that is lost is reported. -/
theorem geometryMismatch_eq_empty_iff (hvalid : table.Valid casing)
    (hlist : ListsPartitions children table) (free : List (ℤ × ℤ)) :
    geometryMismatch children ⟨(table.readItems casing).insertionSort byNumber, free, ""⟩ = "" ↔
      ∀ p ∈ table.partitions, ¬ p.Lost casing := by
  have hany : ((children.filter fun child => child.type = "part").any
      fun child => child.number ≤ 0) = false := by
    rw [List.any_eq_false]
    intro child hchild
    obtain ⟨p, hp, hnumber⟩ := (hlist.mem_numbers child.number).mp (List.mem_map_of_mem hchild)
    have hpositive := (hvalid.partitions p hp).number.1
    rw [decide_eq_true_eq]
    omega
  rw [← sortedNumbers_eq_iff_not_lost hvalid hlist]
  simp only [geometryMismatch, hany, Bool.false_eq_true, if_false, ite_not]
  split
  · simp_all
  · rename_i hne
    refine iff_of_false (fun hempty => ?_) hne
    have hlength := congrArg String.length hempty
    simp [toString] at hlength

end CrossCheck

section Exactness

/-- Number, start, size and flags. -/
abbrev Geometry := ℤ × ℤ × ℤ × List String

def PartedPartition.geometry (item : PartedPartition) : Geometry :=
  (item.number, item.startBytes, item.sizeBytes, item.flags)

def PartitionInventory.geometry (p : PartitionInventory) : Geometry :=
  (p.identity.number, p.identity.startBytes, p.identity.sizeBytes, p.flags)

def GptPartition.geometry (p : GptPartition) : Geometry :=
  (p.number, p.startBytes, p.sizeBytes, sortedFlags p.flags)

def regionExtent (region : ℕ × ℕ) : FreeExtent := ⟨region.1, region.2⟩

/-- An error and no free extents, or the free regions and the partitions of the table. -/
def GeometryExact (table : GptTable) (disk : DiskGeometry) : Prop :=
  (disk.geometryProbeError ≠ "" ∧ disk.freeExtents = []) ∨
    (disk.freeExtents.Perm (table.free.map regionExtent) ∧
      (disk.partitions.map PartitionInventory.geometry).Perm
        (table.partitions.map GptPartition.geometry))

/-- The row of the device is read as one of a free region. -/
def GptTable.DeviceReadsFree (casing : Casing) (table : GptTable) : Prop :=
  ∃ fields ∈ firstLineFields [table.model, table.diskFlags],
    ∃ field ∈ digits table.physicalSector :: "gpt".toList :: fields, ReadsFree casing field

variable {casing : Casing} {table : GptTable} {children : List LsblkChild}

theorem reading_extent (casing : Casing) (table : GptTable) :
    (table.DeviceReadsFree casing ∧
      (table.reading casing).extent = some (↑table.sizeBytes, ↑table.logicalSector)) ∨
    (¬ table.DeviceReadsFree casing ∧ (table.reading casing).extent = none) := by
  unfold GptTable.reading GptTable.DeviceReadsFree
  cases firstLineFields [table.model, table.diskFlags] with
  | none => simp [Reading.extent]
  | some fields =>
    by_cases hfree : ((digits table.physicalSector :: "gpt".toList :: fields).any
        fun field => ReadsFree casing field) = true
    · simp only [if_pos hfree, Option.mem_some_iff, exists_eq_left']
      exact Or.inl ⟨by simpa using hfree, rfl⟩
    · simp only [if_neg hfree, Option.mem_some_iff, exists_eq_left']
      exact Or.inr ⟨by simpa using hfree, rfl⟩

theorem readExtents_of_not_lost (h : ∀ p ∈ table.partitions, ¬ p.Lost casing) :
    table.readExtents casing = (table.reading casing).extent.toList ++
      table.free.map fun region => ((region.1 : ℤ), (region.2 : ℤ)) := by
  rw [GptTable.readExtents, GptTable.free, List.map_filterMap]
  congr 1
  refine List.filterMap_congr fun row hrow => ?_
  cases row with
  | partition p =>
    exact GptPartition.reading_extent (h p (List.mem_filterMap.mpr ⟨_, hrow, rfl⟩))
  | free startBytes sizeBytes => rfl

theorem entry_readItems (hvalid : table.Valid casing)
    (h : ∀ p ∈ table.partitions, ¬ p.Lost casing) {p : GptPartition} (hp : p ∈ table.partitions) :
    entry PartedPartition.number ((table.readItems casing).insertionSort byNumber) p.number =
      some p.item := by
  have hitem : p.item ∈ (table.readItems casing).insertionSort byNumber := by
    rw [List.mem_insertionSort, mem_readItems]
    exact ⟨p, hp, h p hp, rfl⟩
  refine entry_of_unique hitem fun other hother hnumber => ?_
  rw [List.mem_insertionSort, mem_readItems] at hother
  obtain ⟨q, hq, -, rfl⟩ := hother
  rw [List.inj_on_of_nodup_map hvalid.numbers hq hp (Int.ofNat_inj.mp hnumber)]

/-- Every partition that is listed gets the geometry that was read for its number. -/
theorem buildPartitions_geometry (hvalid : table.Valid casing)
    (hlist : ListsPartitions children table) (h : ∀ p ∈ table.partitions, ¬ p.Lost casing)
    (free : List (ℤ × ℤ)) (logicalSector : ℤ) :
    ((buildPartitions casing children ⟨(table.readItems casing).insertionSort byNumber, free, ""⟩
        logicalSector).map PartitionInventory.geometry).Perm
      (table.partitions.map fun p => p.item.geometry) := by
  let items := (table.readItems casing).insertionSort byNumber
  let geometryOf (partn : Option ℤ) : Option Geometry :=
    (entry PartedPartition.number items (nonnegativeInt partn)).map PartedPartition.geometry
  have hentry : ∀ p ∈ table.partitions,
      entry PartedPartition.number items p.number = some p.item :=
    fun p hp => entry_readItems hvalid h hp
  have hbuild : ∀ child ∈ children, (buildPartition casing ⟨items, free, ""⟩ logicalSector
      child).map PartitionInventory.geometry =
        if child.type = "part" then geometryOf child.partn else none := by
    intro child hchild
    by_cases hpart : child.type = "part"
    · obtain ⟨p, hp, hnumber⟩ := (hlist.mem_numbers child.number).mp
        (List.mem_map_of_mem (List.mem_filter.mpr ⟨hchild, by simpa using hpart⟩))
      have hpositive := (hvalid.partitions p hp).number.1
      have hsize := (hvalid.partitions p hp).size.1
      have hread : geometryOf child.partn = some p.item.geometry := by
        have hpartn : nonnegativeInt child.partn = p.number := hnumber.symm
        simp only [geometryOf, hpartn, hentry p hp, Option.map_some]
      have hitemSize : p.item.sizeBytes = p.sizeBytes := rfl
      rw [if_pos hpart, hread, buildPartition, if_neg (by simp [hpart, ← hnumber, hpositive.ne'])]
      simp only [← hnumber, hentry p hp]
      rw [if_neg (by omega)]
      rfl
    · simp [buildPartition, hpart]
  have hlisted : ((children.filterMap (buildPartition casing ⟨items, free, ""⟩
      logicalSector)).map PartitionInventory.geometry) =
        ((children.filter fun child => child.type = "part").map LsblkChild.partn).filterMap
          geometryOf := by
    rw [List.map_filterMap, List.filterMap_congr hbuild, List.filterMap_map,
      List.filterMap_filter]
    simp
  have htable : (table.partitions.map fun p => some (p.number : ℤ)).filterMap geometryOf =
      table.partitions.map fun p => p.item.geometry := by
    rw [List.filterMap_map, ← List.filterMap_eq_map']
    refine List.filterMap_congr fun p hp => ?_
    have hpartn : nonnegativeInt (some (p.number : ℤ)) = p.number := by simp [nonnegativeInt]
    simp only [Function.comp_apply, geometryOf, hpartn, hentry p hp, Option.map_some]
  refine ((List.perm_insertionSort byStart _).map _).trans ?_
  rw [hlisted, ← htable]
  exact hlist.filterMap geometryOf

/-- The flags are those of the table if and only if none of them is cut off. -/
theorem items_perm_iff (hvalid : table.Valid casing) :
    (table.partitions.map fun p => p.item.geometry).Perm
        (table.partitions.map GptPartition.geometry) ↔
      ∀ p ∈ table.partitions, p.Cut → p.flags = [] := by
  have hitem (p : GptPartition) : p.item.geometry = p.geometry ↔ (p.Cut → p.flags = []) := by
    have hempty : [] = sortedFlags p.flags ↔ p.flags = [] := by
      rw [eq_comm, ← List.length_eq_zero_iff, ← List.length_eq_zero_iff, sortedFlags,
        List.length_insertionSort, List.length_map]
    by_cases hcut : p.Cut
    · simp [GptPartition.item, PartedPartition.geometry, GptPartition.geometry, hcut, hempty]
    · simp [GptPartition.item, PartedPartition.geometry, GptPartition.geometry, hcut]
  constructor
  · intro hperm p hp
    have hmem := hperm.mem_iff.mpr (List.mem_map_of_mem hp)
    obtain ⟨q, hq, heq⟩ := List.mem_map.mp hmem
    have hnumber : q.number = p.number := Int.ofNat_inj.mp (congrArg Prod.fst heq)
    rw [List.inj_on_of_nodup_map hvalid.numbers hq hp hnumber] at heq
    exact (hitem p).mp heq
  · intro h
    rw [List.map_congr_left fun p hp => (hitem p).mpr (h p hp)]

/-- The free extents are those of the table if and only if no row of the device joins them. -/
theorem extents_perm_iff (hvalid : table.Valid casing)
    (h : ∀ p ∈ table.partitions, ¬ p.Lost casing) :
    ((((table.readExtents casing).insertionSort byExtent).filter fun extent =>
        0 ≤ extent.1 ∧ 0 < extent.2).map fun extent => (⟨extent.1, extent.2⟩ : FreeExtent)).Perm
        (table.free.map regionExtent) ↔ ¬ table.DeviceReadsFree casing := by
  have hregions : ∀ extent ∈ table.free.map fun region => ((region.1 : ℤ), (region.2 : ℤ)),
      0 ≤ extent.1 ∧ 0 < extent.2 := by
    intro extent hextent
    obtain ⟨region, hregion, rfl⟩ := List.mem_map.mp hextent
    have hpositive := (hvalid.free region hregion).2.1
    simp only
    omega
  have hsector : (0 : ℤ) < table.logicalSector := by exact_mod_cast hvalid.sizes.2.1
  have hall : ∀ extent ∈ (table.readExtents casing).insertionSort byExtent,
      0 ≤ extent.1 ∧ 0 < extent.2 := by
    intro extent hextent
    rw [List.mem_insertionSort, readExtents_of_not_lost h, List.mem_append] at hextent
    rcases hextent with hdevice | hextent
    · rcases reading_extent casing table with ⟨-, heq⟩ | ⟨-, heq⟩
      · rw [heq, Option.toList_some, List.mem_singleton] at hdevice
        rw [hdevice]
        exact ⟨by simp, hsector⟩
      · rw [heq] at hdevice
        cases hdevice
    · exact hregions extent hextent
  rw [List.filter_eq_self.mpr fun extent hextent => by simpa using hall extent hextent]
  have hsorted : (((table.readExtents casing).insertionSort byExtent).map fun extent =>
      (⟨extent.1, extent.2⟩ : FreeExtent)).Perm
        ((table.reading casing).extent.toList.map (fun extent => ⟨extent.1, extent.2⟩) ++
          table.free.map regionExtent) := by
    refine ((List.perm_insertionSort byExtent _).map _).trans (List.Perm.of_eq ?_)
    rw [readExtents_of_not_lost h, List.map_append, List.map_map]
    rfl
  rcases reading_extent casing table with ⟨hfree, heq⟩ | ⟨hfree, heq⟩
  · refine iff_of_false (fun hperm => ?_) (not_not.mpr hfree)
    have hlength := (hsorted.symm.trans hperm).length_eq
    simp [heq] at hlength
  · refine iff_of_true ?_ hfree
    simpa [heq] using hsorted

/-- The inventory is exact, or offers nothing, if and only if the row of a partition is lost, or
no partition with flags is cut behind a break and the row of the device does not read as free. -/
theorem geometry_exact_iff (casing : Casing) (numerals : Numerals) (table : GptTable)
    (children : List LsblkChild) (logicalSector : ℤ) (hcasing : casing.lower "free" = "free")
    (hvalid : table.Valid casing) (hlist : ListsPartitions children table) :
    GeometryExact table
        (probeDiskGeometry casing numerals children logicalSector (.ok table.print)) ↔
      (∃ p ∈ table.partitions, p.Lost casing) ∨
        ((∀ p ∈ table.partitions, p.Cut → p.flags = []) ∧ ¬ table.DeviceReadsFree casing) := by
  have hmismatch := geometryMismatch_eq_empty_iff hvalid hlist
    ((table.readExtents casing).insertionSort byExtent)
  simp only [GeometryExact, probeDiskGeometry, probePartedGeometry_print hcasing hvalid]
  rw [if_neg (by simp)]
  by_cases hlost : ∃ p ∈ table.partitions, p.Lost casing
  · have herror := mt hmismatch.mp fun h => hlost.elim fun p hp => h p hp.1 hp.2
    refine iff_of_true (Or.inl ⟨herror, ?_⟩) (Or.inl hlost)
    rw [if_pos herror]
    rfl
  · have hnot : ∀ p ∈ table.partitions, ¬ p.Lost casing := fun p hp h => hlost ⟨p, hp, h⟩
    have hitems := (buildPartitions_geometry hvalid hlist hnot
      ((table.readExtents casing).insertionSort byExtent) logicalSector).congr_left
      (table.partitions.map GptPartition.geometry)
    rw [hmismatch.mpr hnot]
    simp only [ne_eq, not_true_eq_false, false_and, false_or, if_false, hlost]
    rw [extents_perm_iff hvalid hnot, hitems, items_perm_iff hvalid, and_comm]

end Exactness

section Example

def asciiNumerals : Numerals where
  isdigit text := text ≠ [] ∧ text.all Char.isDigit
  int text :=
    if text.all Char.isDigit ∧ text.length ≤ 4300 then .ok (Nat.ofDigitChars 10 text 0)
    else .error "Exceeds the limit (4300 digits) for integer string conversion"
  repr text := "'" ++ String.ofList text ++ "'"
  digits n := by
    simpa [Nat.toDigits_ne_nil] using
      fun c hc => Nat.isDigit_of_mem_toDigits (by omega) (by omega) hc
  value n h := by
    have hall : (Nat.toDigits 10 n).all Char.isDigit = true :=
      List.all_eq_true.mpr fun c hc => Nat.isDigit_of_mem_toDigits (by omega) (by omega) hc
    rw [if_pos ⟨hall, h⟩, Nat.ofDigitChars_ten_toDigits]
  slash text h := by
    refine decide_eq_false fun hdigits => ?_
    have hslash := List.all_eq_true.mp hdigits.2 '/' h
    simp at hslash

def namedPartition (name : String) : GptPartition :=
  ⟨1, 1048576, 536870912, "fat32".toList, name.toList, ["boot".toList, "esp".toList]⟩

/-- A disk with one partition, in front of which and behind which there is free space. -/
def namedTable (name : String) : GptTable where
  disk := "sda".toList
  sizeBytes := 1073741824
  transport := "scsi".toList
  logicalSector := 512
  physicalSector := 512
  model := "QEMU HARDDISK".toList
  diskFlags := []
  rows := [.free 17408 1031168, .partition (namedPartition name), .free 537919488 535805440]

theorem namedTable_partitions (name : String) :
    (namedTable name).partitions = [namedPartition name] := rfl

theorem namedTable_valid (name : String) : (namedTable name).Valid asciiCasing where
  device := (by decide : Unbroken "sda".toList ∧ Unbroken "scsi".toList)
  sizes := (by decide : Short 1073741824 ∧ 0 < 512 ∧ Short 512)
  numbers := by simp [namedTable_partitions]
  partitions p hp := by
    obtain rfl := List.mem_singleton.mp hp
    refine ⟨(by decide : 0 < 1 ∧ Short 1), (by decide : Short 1048576),
      (by decide : 0 < 536870912 ∧ Short 536870912), fun flag hflag => ?_⟩
    rcases List.mem_pair.mp hflag with rfl | rfl <;>
      exact ⟨by decide, by decide, by decide⟩
  free region hregion := by
    rcases List.mem_pair.mp hregion with rfl | rfl <;> decide

def firstPartition : LsblkChild where
  type := "part"
  partn := some 1
  start := some 2048
  size := some 536870912
  path := "/dev/sda1"
  partuuid := "11111111-aaaa-4bbb-8ccc-000000000001"
  parttype := "c12a7328-f81f-11d2-ba4b-00a0c93ec93b"
  fstype := "vfat"
  uuid := "7A1B-93C4"
  mountpoints := ["/boot/efi"]

theorem namedTable_listed (name : String) :
    ListsPartitions [firstPartition] (namedTable name) := by
  simp [ListsPartitions, firstPartition, namedTable_partitions, namedPartition]

def probedTable (name : String) : DiskGeometry :=
  probeDiskGeometry asciiCasing asciiNumerals [firstPartition] 512 (.ok (namedTable name).print)

/-- A line break behind a semicolon in the name of a partition takes its flags, and no error is
reported. -/
theorem broken_name_loses_flags :
    (namedTable "old;\ndata").Valid asciiCasing ∧
      ListsPartitions [firstPartition] (namedTable "old;\ndata") ∧
      (probedTable "old;\ndata").geometryProbeError = "" ∧
      (probedTable "old;\ndata").partitions.map PartitionInventory.flags = [[]] ∧
      ¬ GeometryExact (namedTable "old;\ndata") (probedTable "old;\ndata") := by
  have herror : (probedTable "old;\ndata").geometryProbeError = "" := by decide +kernel
  have hread : (probedTable "old;\ndata").partitions.map PartitionInventory.geometry =
      [(1, 1048576, 536870912, [])] := by
    decide +kernel
  refine ⟨namedTable_valid _, namedTable_listed _, herror, by decide +kernel, ?_⟩
  rintro (⟨hne, -⟩ | ⟨-, hperm⟩)
  · exact hne herror
  · rw [hread] at hperm
    revert hperm
    decide +kernel

/-- The row of a partition with the name of a free region is lost, and so the disk offers
nothing. -/
theorem free_name_offers_nothing :
    (∃ p ∈ (namedTable " FREE ").partitions, p.Lost asciiCasing) ∧
      GeometryExact (namedTable " FREE ") (probedTable " FREE ") := by
  have hlost : ∃ p ∈ (namedTable " FREE ").partitions, p.Lost asciiCasing := by decide +kernel
  exact ⟨hlost, (geometry_exact_iff asciiCasing asciiNumerals (namedTable " FREE ")
    [firstPartition] 512 (by decide) (namedTable_valid _) (namedTable_listed _)).mpr
      (Or.inl hlost)⟩

end Example

end Installer
