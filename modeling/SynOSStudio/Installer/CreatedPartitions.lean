import SynOSStudio.Installer.StorageCommands

/-!
# Partitions created beside others

The commands of a declaration create its partition, and the numbers that a graph declares are
those that a table hands out. A guided plan only adds to a table.
-/

namespace Installer

open IntervalLists KeyedLists PartitionTables

/-! ## One declaration -/

section Declarations

variable {diskPath : String} {table : Table String} {graph : StorageGraph}
  {part : PartitionDeclaration} {e : Entry String}

theorem mibNumber_mibText (n : ℤ) : mibNumber (mibText n) = some n := by
  have hlist : (mibText n).toList = n.repr.toList ++ "MiB".toList := String.toList_append ..
  have hlength : (mibText n).length - 3 = n.repr.toList.length := by
    rw [← String.length_toList, hlist, List.length_append]
    exact Nat.add_sub_cancel ..
  rw [mibNumber, hlength, hlist, List.drop_left, List.take_left, if_pos rfl, String.ofList_toList,
    decimalNumber_repr]

theorem mibRange_mibText (start stop : ℤ) :
    mibRange (mibText start) (mibText stop) = some ⟨start * MIB, stop * MIB⟩ := by
  rw [mibRange, mibNumber_mibText, mibNumber_mibText]
  rfl

theorem parted_mkpart (name : String) (hint : Option String) (start stop : ℤ) :
    parted diskPath table (mkpartCommand diskPath name hint (mibText start) (mibText stop)) =
      table.make ⟨start * MIB, stop * MIB⟩ := by
  have hrange := mibRange_mibText start stop
  cases hint <;> simp [mkpartCommand, parted, partedWords, hrange]

theorem parted_set (number : ℤ) (flag : String) :
    parted diskPath table ["parted", "--script", diskPath, "set", number.repr, flag, "on"] =
      table.mark number flag := by
  simp [parted, partedWords, decimalNumber_repr]

theorem parted_rm (number : ℤ) :
    parted diskPath table ["parted", "--script", diskPath, "rm", number.repr] =
      table.remove number := by
  simp [parted, partedWords, decimalNumber_repr]

/-- The entry that a declaration stands for. -/
def Declares (part : PartitionDeclaration) (e : Entry String) : Prop :=
  e.number = part.number ∧
    (∃ «end», part.endMib = some «end» ∧ e.range = ⟨part.startMib * MIB, «end» * MIB⟩) ∧
    e.flags = part.flags.filter (· ≠ "swap")

/-- The commands of a declaration create its entry. -/
theorem foldlM_parted_create {name : String} {hint : Option String} {«end» : ℤ}
    (hdeclares : Declares part e) (hend : part.endMib = some «end») (table : Table String) :
    (mkpartCommand diskPath name hint (mibText part.startMib) (mibText «end») ::
        flagCommands diskPath part).foldlM (parted diskPath) table = table.create e := by
  obtain ⟨hnumber, ⟨stop, hstop, hrange⟩, hflags⟩ := hdeclares
  obtain rfl : stop = «end» := Option.some.inj (hstop.symm.trans hend)
  rw [List.foldlM_cons, parted_mkpart, Table.create, hrange, flagCommands, hflags, hnumber]
  congr 1
  funext made
  rw [List.foldlM_map]
  congr 1
  funext table flag
  exact parted_set part.number flag

/-- A compiler of declarations whose commands create them. -/
def Creates (diskPath : String)
    (compile : PartitionDeclaration → Except String (List (List String)))
    (part : PartitionDeclaration) (e : Entry String) : Prop :=
  ∀ commands, compile part = .ok commands → ∀ table,
    commands.foldlM (parted diskPath) table = table.create e

theorem foldlM_flatten {compile : PartitionDeclaration → Except String (List (List String))}
    {parts : List PartitionDeclaration} {wanted : List (Entry String)}
    (hcreates : List.Forall₂ (Creates diskPath compile) parts wanted)
    {compiled : List (List (List String))} (hcompiled : parts.mapM compile = .ok compiled)
    (table : Table String) :
    compiled.flatten.foldlM (parted diskPath) table = wanted.foldlM Table.create table := by
  induction hcreates generalizing compiled table with
  | nil =>
    cases hcompiled
    rfl
  | cons hcreate _ ih =>
    rw [List.mapM_cons] at hcompiled
    obtain ⟨commands, hcommands, hcompiled⟩ := bind_ok.mp hcompiled
    obtain ⟨rest, hrest, hcompiled⟩ := bind_ok.mp hcompiled
    cases hcompiled
    rw [List.flatten_cons, List.foldlM_append, hcreate commands hcommands, List.foldlM_cons]
    exact congrArg _ (funext fun table => ih hrest table)

theorem guided_creates (h : Declares part e) :
    Creates diskPath (guidedPartitionCommands diskPath graph) part e := by
  intro commands hcommands table
  unfold guidedPartitionCommands at hcommands
  obtain ⟨declared, -, hcommands⟩ := bind_ok.mp hcommands
  obtain ⟨hint, -, hcommands⟩ := bind_ok.mp hcommands
  cases hend : part.endMib with
  | none => simp [hend] at hcommands
  | some «end» =>
    rw [hend] at hcommands
    cases hcommands
    exact foldlM_parted_create h hend table

theorem manual_creates (h : Declares part e) :
    Creates diskPath (manualPartitionCommands diskPath graph) part e := by
  intro commands hcommands table
  unfold manualPartitionCommands at hcommands
  obtain ⟨filesystem, -, hcommands⟩ := bind_ok.mp hcommands
  obtain ⟨hint, -, hcommands⟩ := bind_ok.mp hcommands
  cases hend : part.endMib with
  | none =>
    obtain ⟨-, ⟨«end», hsome, -⟩, -⟩ := h
    rw [hend] at hsome
    cases hsome
  | some «end» =>
    rw [hend] at hcommands
    cases hcommands
    exact foldlM_parted_create h hend table

end Declarations

/-! ## The numbers of new partitions -/

section Handing

/-- The loop of `_next_partition_numbers` hands out what a table hands out. -/
theorem handed_nextNumbers {used taken : List ℤ} {candidate : ℤ} (fuel count : ℕ)
    (hpos : 0 < candidate) (hbelow : ∀ m, 0 < m → m < candidate → m ∈ taken)
    (habove : ∀ m, candidate ≤ m → (m ∈ taken ↔ m ∈ used)) :
    Handed taken (nextNumbers used fuel candidate count) := by
  induction fuel generalizing taken candidate count with
  | zero => exact trivial
  | succ fuel ih =>
    cases count with
    | zero => exact trivial
    | succ count =>
      rw [nextNumbers]
      split
      · rename_i hused
        refine ih (count + 1) (by omega) (fun m hm hlt => ?_) fun m hm => habove m (by omega)
        by_cases hsame : m = candidate
        · exact hsame ▸ (habove candidate le_rfl).mpr hused
        · exact hbelow m hm (by omega)
      · rename_i hfree
        refine ⟨⟨hpos, fun h => hfree ((habove candidate le_rfl).mp h), hbelow⟩,
          ih count (by omega) (fun m hm hlt => ?_) fun m hm => ?_⟩
        · by_cases hsame : m = candidate
          · simp [hsame]
          · simp [hbelow m hm (by omega)]
        · have hne : m ≠ candidate := by omega
          simp [hne, habove m (by omega)]

theorem handed_nextPartitionNumbers {used taken : List ℤ} (hsame : ∀ m, m ∈ taken ↔ m ∈ used)
    (count : ℕ) : Handed taken (nextPartitionNumbers used count) :=
  handed_nextNumbers _ count one_pos (fun m hm hlt => absurd hm (by omega)) fun m _ => hsame m

end Handing

/-! ## Formats -/

section Formats

variable {diskPath : String} {graph : StorageGraph}

theorem formatCommand_last {filesystem : GraphFilesystem} {device : String}
    {command : List String} (h : formatCommand filesystem device = .ok command) :
    command.getLast? = some device := by
  cases filesystem <;> cases h <;> rfl

theorem partitionPath_inj {a b : ℤ} :
    partitionPath diskPath a = partitionPath diskPath b ↔ a = b := by
  unfold partitionPath
  rw [String.append_right_inj, repr_inj]

/-- The device that a format command is for. -/
def formatTarget (command : List String) : Option String := command.getLast?

theorem guidedFormats_targets {parts : List PartitionDeclaration} {format : List (List String)}
    (hdeclared : ∀ part ∈ parts, ∃ declaration, formattedDeclaration graph part = some declaration)
    (h : guidedFormats diskPath graph parts = .ok format) :
    format.map formatTarget = parts.map fun part => some (partitionPath diskPath part.number) := by
  induction parts generalizing format with
  | nil =>
    cases h
    rfl
  | cons part parts ih =>
    obtain ⟨declaration, hsome⟩ := hdeclared part (by simp)
    rw [guidedFormats, hsome] at h
    obtain ⟨command, hcommand, h⟩ := bind_ok.mp h
    obtain ⟨commands, hcommands, h⟩ := bind_ok.mp h
    cases h
    rw [List.map_cons, List.map_cons, ih (fun other hother => hdeclared other (by simp [hother]))
      hcommands, formatTarget, formatCommand_last hcommand]

end Formats

/-! ## A guided plan -/

section Guided

variable {extentId : FreeExtent → String} {casing : Casing} {plan : StoragePlan}
  {inventory : StorageInventory} {disk : DiskInventory} {graph : StorageGraph}

/-- What an accepted guided plan is made of. -/
structure GuidedPlan (extentId : FreeExtent → String) (plan : StoragePlan) (disk : DiskInventory)
    (graph : StorageGraph) (extent : FreeExtent) : Prop where
  carried : plan.graph = some graph
  offered : extent ∈ disk.freeExtents
  numbers : graph.partitions.map PartitionDeclaration.number =
    nextPartitionNumbers (disk.partitions.map fun item => item.identity.number)
      graph.partitions.length
  formats : targets graph .format = graph.partitions.map PartitionDeclaration.partitionId
  contained : escapesExtent (freeExtentReferenceId extentId extent)
    ((extent.startBytes + extent.sizeBytes) / MIB) ((extent.startBytes + MIB - 1) / MIB)
    graph.partitions = false

theorem declareFrom_numbers {extent : FreeExtent} {endMib cursor : ℤ}
    {parts : List (ManualPartitionRole × ℤ)} :
    (declareFrom extentId plan disk extent endMib cursor parts).map PartitionDeclaration.number =
      parts.map Prod.snd := by
  induction parts generalizing cursor with
  | nil => rfl
  | cons part parts ih => simp [declareFrom, ih]

theorem guidedPartitions_numbers (extentId : FreeExtent → String) (plan : StoragePlan)
    (disk : DiskInventory) (extent : FreeExtent) (reusedEsp : Option PartitionInventory) :
    (guidedPartitions extentId plan disk extent reusedEsp).map PartitionDeclaration.number =
      guidedNumbers plan disk reusedEsp := by
  rw [guidedPartitions, declareFrom_numbers, List.map_snd_zip]
  rw [guidedNumbers, nextPartitionNumbers_length]

section Canonical

variable (extentId : FreeExtent → String) (plan : StoragePlan) (disk : DiskInventory)
  (extent : FreeExtent) (reusedEsp : Option PartitionInventory)
  (inventoryDigest rootId espId : String) (mounts : List MountDeclaration)

theorem referencesOf_guidedGraph :
    referencesOf (guidedGraph extentId plan disk extent reusedEsp inventoryDigest rootId espId
        mounts) .disk = [diskReference disk] ∧
      referencesOf (guidedGraph extentId plan disk extent reusedEsp inventoryDigest rootId espId
        mounts) .freeExtent = [freeExtentReference extentId disk extent] := by
  simp [referencesOf, guidedGraph, guidedReferences, diskReference, freeExtentReference,
    partitionReference]

theorem formats_creationOperations (partitions : List PartitionDeclaration) :
    ((creationOperations plan rootId espId partitions).filter fun item =>
      item.action == .format).map StorageGraphOperation.targetId =
        partitions.map PartitionDeclaration.partitionId := by
  have hcreate : (StorageGraphAction.createPartition == .format) = false := rfl
  have hsubvolume : (StorageGraphAction.createSubvolume == .format) = false := rfl
  simp [creationOperations, List.filter_map, Function.comp_def, hcreate, hsubvolume]

theorem formats_guidedGraph :
    targets (guidedGraph extentId plan disk extent reusedEsp inventoryDigest rootId espId mounts)
        .format =
      (guidedPartitions extentId plan disk extent reusedEsp).map
        PartitionDeclaration.partitionId := by
  have hcreation := formats_creationOperations plan rootId espId
    (guidedPartitions extentId plan disk extent reusedEsp)
  simp [targets, guidedGraph, List.filter_append, List.filter_map, Function.comp_def, hcreation]

end Canonical

theorem graph_of_header (h : validateGraphHeader plan = .ok graph) : plan.graph = some graph := by
  unfold validateGraphHeader at h
  split at h
  · cases h
  · rename_i g hplan
    simp only [raiseIf_then_ok] at h
    obtain ⟨-, -, -, h⟩ := h
    cases h
    exact hplan

theorem guidedPlan_of_valid
    (h : validateGuidedCoexistenceGraph extentId casing plan inventory = .ok disk) :
    inventory.disk plan.diskStableId = .ok disk ∧
      ∃ graph extent, GuidedPlan extentId plan disk graph extent := by
  unfold validateGuidedCoexistenceGraph at h
  obtain ⟨graph, hheader, h⟩ := bind_ok.mp h
  rw [raiseIf_then_ok, check_then_ok] at h
  obtain ⟨-, hstructure, h⟩ := h
  obtain ⟨reference, -, h⟩ := bind_ok.mp h
  obtain ⟨found, hfound, h⟩ := bind_ok.mp h
  obtain ⟨extentReference, -, h⟩ := bind_ok.mp h
  dsimp only at h
  split at h
  · cases h
  rename_i extent hextent
  obtain ⟨_, hsame, h⟩ := bind_ok.mp h
  cases hsame
  obtain ⟨reusedEsp, -, h⟩ := bind_ok.mp h
  obtain ⟨expected, hbuild, h⟩ := bind_ok.mp h
  rw [raiseIf_then_ok] at h
  obtain ⟨hequal, h⟩ := h
  cases h
  replace hequal : graph = expected := by simpa using hequal
  subst hequal
  have hgraph := graph_of_header hheader
  have hoffered : extent ∈ disk.freeExtents := List.mem_of_find?_eq_some hextent
  unfold buildGuidedCoexistenceStorageGraph at hbuild
  rw [raiseIf_then_ok, raiseIf_then_ok, raiseIf_then_ok] at hbuild
  obtain ⟨-, hdisk, -, hbuild⟩ := hbuild
  dsimp only at hbuild
  split at hbuild
  · cases hbuild
  obtain ⟨candidate, -, hbuild⟩ := bind_ok.mp hbuild
  simp only [raiseIf_then_ok] at hbuild
  obtain ⟨-, -, -, hbuild⟩ := hbuild
  obtain ⟨espId, -, hbuild⟩ := bind_ok.mp hbuild
  obtain ⟨rootId, -, hbuild⟩ := bind_ok.mp hbuild
  obtain ⟨mounts, -, hbuild⟩ := bind_ok.mp hbuild
  have hcanonical : guidedGraph extentId plan disk extent reusedEsp graph.inventoryDigest rootId
      espId mounts = graph := Except.ok.inj hbuild
  have hpartitions : graph.partitions = guidedPartitions extentId plan disk extent reusedEsp := by
    rw [← hcanonical]
    rfl
  simp only [Bool.or_eq_false_iff, bne_eq_false_iff_eq] at hdisk
  have hlookup := verifyDiskTopology_found hfound
  have hid := disk_found hlookup
  simp only at hlookup hid
  refine ⟨by rw [hdisk.1, hid]; exact hlookup, graph, extent, hgraph, hoffered, ?_, ?_, ?_⟩
  · have hnumbers := guidedPartitions_numbers extentId plan disk extent reusedEsp
    have hlength := congrArg List.length hnumbers
    rw [List.length_map, guidedNumbers, nextPartitionNumbers_length] at hlength
    rw [hpartitions, hnumbers, hlength, guidedNumbers]
  · rw [hpartitions, ← hcanonical, formats_guidedGraph]
  · obtain ⟨hdisks, hextents⟩ := referencesOf_guidedGraph extentId plan disk extent reusedEsp
      graph.inventoryDigest rootId espId mounts
    rw [hcanonical] at hdisks hextents
    unfold validateGuidedGraphStructure at hstructure
    rw [hdisks, hextents] at hstructure
    simp only [raiseIf_then_ok] at hstructure
    obtain ⟨-, -, -, -, hstructure⟩ := hstructure
    split at hstructure
    · simp only [raiseIf_then_ok, raiseIf_ok] at hstructure
      exact hstructure.2.2.2
    · cases hstructure

/-- What is created from a declaration. -/
def declaredEntry (part : PartitionDeclaration) : Entry String where
  number := part.number
  range := ⟨part.startMib * MIB, part.endMib.getD 0 * MIB⟩
  flags := part.flags.filter (· ≠ "swap")

/-- Declarations that do not escape follow one another between two ends. -/
theorem escapesExtent_false {parent : String} {extentEnd previousEnd : ℤ}
    {parts : List PartitionDeclaration}
    (h : escapesExtent parent extentEnd previousEnd parts = false) :
    (∀ part ∈ parts, ∃ «end», part.endMib = some «end» ∧ previousEnd ≤ part.startMib ∧
      part.startMib < «end» ∧ «end» ≤ extentEnd) ∧
    parts.Pairwise fun a b => (declaredEntry a).range.stop ≤ (declaredEntry b).range.start := by
  induction parts generalizing previousEnd with
  | nil => exact ⟨fun _ h => absurd h List.not_mem_nil, .nil⟩
  | cons part parts ih =>
    rw [escapesExtent] at h
    cases hend : part.endMib with
    | none => simp [hend] at h
    | some «end» =>
      simp only [hend, Bool.or_eq_false_iff, decide_eq_false_iff_not, not_lt, not_le] at h
      obtain ⟨⟨⟨⟨-, hstart⟩, hproper⟩, hstop⟩, hrest⟩ := h
      obtain ⟨hall, hpairs⟩ := ih hrest
      refine ⟨fun other hother => ?_, List.pairwise_cons.mpr ⟨fun other hother => ?_, hpairs⟩⟩
      · rcases List.mem_cons.mp hother with rfl | hother
        · exact ⟨«end», hend, hstart, hproper, hstop⟩
        · obtain ⟨stop, hsome, hafter, hbounds⟩ := hall other hother
          exact ⟨stop, hsome, by omega, hbounds⟩
      · obtain ⟨stop, -, hafter, -⟩ := hall other hother
        simp only [declaredEntry, hend, Option.getD_some, MIB]
        omega

/-- A table that holds the partitions of a disk. -/
structure Holds (table : Table String) (disk : DiskInventory) : Prop where
  size : table.size = disk.expectedSizeBytes
  entries : table.entries.map (fun e => (e.number, e.range)) =
    disk.partitions.map fun p => (p.identity.number, p.range)

theorem Holds.numbers {table : Table String} (h : Holds table disk) :
    table.numbers = disk.partitions.map fun p => p.identity.number := by
  have hmap := congrArg (List.map Prod.fst) h.entries
  simpa [Table.numbers, List.map_map, Function.comp_def] using hmap

theorem Holds.partition_of {table : Table String} (h : Holds table disk) {e : Entry String}
    (he : e ∈ table.entries) :
    ∃ p ∈ disk.partitions, p.identity.number = e.number ∧ p.range = e.range := by
  have hmem : (e.number, e.range) ∈ table.entries.map fun e => (e.number, e.range) :=
    List.mem_map_of_mem he
  rw [h.entries] at hmem
  obtain ⟨p, hp, hpair⟩ := List.mem_map.mp hmem
  exact ⟨p, hp, (Prod.mk.inj hpair).1, (Prod.mk.inj hpair).2⟩

/-- The declared ranges lie in the free extent of the plan. -/
theorem GuidedPlan.ranges {extent : FreeExtent} (h : GuidedPlan extentId plan disk graph extent) :
    ∀ part ∈ graph.partitions, Declares part (declaredEntry part) ∧
      (declaredEntry part).range.start < (declaredEntry part).range.stop ∧
      extent.range.start ≤ (declaredEntry part).range.start ∧
      (declaredEntry part).range.stop ≤ extent.range.stop := by
  intro part hpart
  obtain ⟨stop, hend, hafter, hproper, hbefore⟩ := (escapesExtent_false h.contained).1 part hpart
  refine ⟨⟨rfl, ⟨stop, hend, by simp [declaredEntry, hend]⟩, rfl⟩, ?_⟩
  simp only [declaredEntry, hend, Option.getD_some, FreeExtent.range, byteRange, MIB] at *
  omega

theorem GuidedPlan.declares {extent : FreeExtent}
    (h : GuidedPlan extentId plan disk graph extent) :
    List.Forall₂ Declares graph.partitions (graph.partitions.map declaredEntry) :=
  List.forall₂_map_right_iff.mpr (List.forall₂_same.mpr fun part hpart => (h.ranges part hpart).1)

/-- The entries of a guided plan have room of their own on its disk. -/
theorem GuidedPlan.fits {extent : FreeExtent} (h : GuidedPlan extentId plan disk graph extent)
    (hpartitioned : disk.Partitioned) {table : Table String} (hholds : Holds table disk) :
    graph.partitions.foldlM (fun table part => table.create (declaredEntry part)) table =
      some ⟨table.size, table.entries ++ graph.partitions.map declaredEntry⟩ := by
  have hextent := hpartitioned.inside extent.range
    (List.mem_append_right _ (List.mem_map_of_mem h.offered))
  rw [← List.foldlM_map]
  refine Table.foldlM_create table ?_ (fun e he => ?_) (fun e he g hg => ?_) ?_
  · have hnumbers : (graph.partitions.map declaredEntry).map Entry.number =
        graph.partitions.map PartitionDeclaration.number := by
      rw [List.map_map]
      rfl
    rw [hnumbers, h.numbers]
    exact handed_nextPartitionNumbers (fun m => by rw [hholds.numbers]) _
  · obtain ⟨part, hpart, rfl⟩ := List.mem_map.mp he
    obtain ⟨-, hproper, hstart, hstop⟩ := h.ranges part hpart
    rw [hholds.size]
    omega
  · obtain ⟨part, hpart, rfl⟩ := List.mem_map.mp he
    obtain ⟨p, hp, -, hrange⟩ := hholds.partition_of hg
    obtain ⟨-, -, hstart, hstop⟩ := h.ranges part hpart
    rw [← hrange]
    exact (free_apart hpartitioned hp h.offered).mono_right (Set.Ico_subset_Ico hstart hstop)
  · rw [List.pairwise_map]
    exact (escapesExtent_false h.contained).2.imp apart_of_le

theorem GuidedPlan.new_numbers {extent : FreeExtent}
    (h : GuidedPlan extentId plan disk graph extent) {table : Table String}
    (hholds : Holds table disk) :
    (∀ part ∈ graph.partitions, part.number ∉ table.numbers) ∧
      graph.partitions.Pairwise fun a b => a.number ≠ b.number := by
  constructor
  · intro part hpart
    have hmem := List.mem_map_of_mem (f := PartitionDeclaration.number) hpart
    rw [h.numbers] at hmem
    rw [hholds.numbers]
    exact nextPartitionNumbers_free hmem
  · have hnodup : (graph.partitions.map PartitionDeclaration.number).Nodup := by
      rw [h.numbers]
      exact nextPartitionNumbers_nodup
    exact List.pairwise_map.mp hnodup

theorem GuidedPlan.formatted {extent : FreeExtent} {compiled : List (List (List String))}
    {diskPath : String} (h : GuidedPlan extentId plan disk graph extent)
    (hcompiled : graph.partitions.mapM (guidedPartitionCommands diskPath graph) = .ok compiled) :
    ∀ part ∈ graph.partitions, ∃ declaration,
      formattedDeclaration graph part = some declaration := by
  intro part hpart
  obtain ⟨commands, hcommands⟩ := mapM_each hcompiled part hpart
  unfold guidedPartitionCommands at hcommands
  obtain ⟨declared, hdeclared, -⟩ := bind_ok.mp hcommands
  have hfound := keyed_ok.mp hdeclared
  have hblock : declared.blockId = part.partitionId := by simpa using List.find?_some hfound
  refine entry_exists (a := declared) (List.mem_filter.mpr ⟨List.mem_of_find?_eq_some hfound, ?_⟩)
    hblock
  rw [decide_eq_true_eq, hblock, h.formats]
  exact List.mem_map_of_mem hpart

end Guided

section Example

theorem windowsDisk_partitioned : windowsDisk.Partitioned where
  disjoint := by
    have hmeets : windowsDisk.ranges.Pairwise fun a b => meets a b = false := by decide +kernel
    exact hmeets.imp meets_eq_false.mp
  inside := by decide +kernel

/-- The table of the disk. -/
def windowsTable : Table String where
  size := windowsDisk.expectedSizeBytes
  entries := [⟨1, ⟨MIB, 20481 * MIB⟩, ["msftdata"]⟩, ⟨2, ⟨20481 * MIB, 22529 * MIB⟩, []⟩]

theorem windowsTable_holds : Holds windowsTable windowsDisk := ⟨rfl, by decide +kernel⟩

def windowsExtentId (_ : FreeExtent) : String :=
  "00112233445566778899aabbccddeeff00112233445566778899aabbccddeeff"

def besidePlan (graph : Option StorageGraph) : StoragePlan :=
  { shrinkingPlan graph with mode := .guidedCoexistence }

def besideGraph : StorageGraph :=
  guidedGraph windowsExtentId (besidePlan none) windowsDisk ⟨22529 * MIB, 40000 * MIB⟩ none
    "fedcba9876543210fedcba9876543210fedcba9876543210fedcba9876543210"
    "disk:wwn-0x5000:new-partition:4" "disk:wwn-0x5000:new-partition:3"
    [⟨"disk:wwn-0x5000:new-partition:4", "/", .root⟩,
      ⟨"disk:wwn-0x5000:new-partition:3", "/boot/efi", .efi⟩]

end Example

end Installer
