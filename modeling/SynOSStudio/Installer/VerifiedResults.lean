import SynOSStudio.Installer.CapturedPlans

/-!
# Verified results

When the verification of a finished installation returns: the disk is what the accepted plan
declares of it.
-/

namespace Installer

open KeyedLists

section Outcome

variable (casing : Casing) (before : DiskInventory) (graph : StorageGraph)

def marked (action : StorageGraphAction) (p : PartitionInventory) : Bool :=
  decide (⟨action, referenceOf before p⟩ ∈ graph.operations)

def replacesTable : Bool :=
  graph.operations.any fun operation => operation.action == .replacePartitionTable

def preservedPartitions : List PartitionInventory :=
  before.partitions.filter (marked before graph .preserve)

/-- The partitions with a declared new size. -/
def declaredResizes : List (PartitionInventory × ℤ) :=
  before.partitions.filterMap fun p =>
    (entry PartitionResizeDeclaration.targetReferenceId graph.partitionResizes
      (referenceOf before p)).map fun d => (p, d.targetSizeBytes)

def removedPartuuids : List String :=
  (before.partitions.filter fun p =>
    replacesTable graph || marked before graph .deletePartition p).map partuuidOf

/-- What the verification of a manual installation is to establish. -/
structure ManualOutcome (after : DiskInventory) : Prop where
  size : after.expectedSizeBytes = before.expectedSizeBytes
  gpt : after.partitionTable = "gpt"
  table : replacesTable graph = false → after.partitionTableUuid = before.partitionTableUuid
  declared : AsDeclared casing graph after (preservedPartitions before graph)
    (declaredResizes before graph) (removedPartuuids before graph)
  identified : NewIdentified graph after
  listedLast : ∀ p ∈ preservedPartitions before graph ++
    (declaredResizes before graph).map Prod.fst, ListedLast after p

/-- The same for a guided installation, which keeps all partitions and the table. -/
structure GuidedOutcome (after : DiskInventory) : Prop where
  size : after.expectedSizeBytes = before.expectedSizeBytes
  table : after.partitionTable = before.partitionTable
  tableUuid : after.partitionTableUuid = before.partitionTableUuid
  declared : AsDeclared casing graph after before.partitions [] []
  identified : NewIdentified graph after
  listedLast : ∀ p ∈ before.partitions, ListedLast after p

end Outcome

section Captured

variable {casing : Casing} {plan : StoragePlan} {inventory : StorageInventory}
  {diskPath : String} {before : DiskInventory} {graph : StorageGraph}
  {selection : ManualStorageSelection} {writeSet : StorageWriteSet}
  {snapshot : ManualPreservationSnapshot}

/-- A snapshot that holds what the graph marks on the disk. -/
structure Captured (before : DiskInventory) (graph : StorageGraph)
    (snapshot : ManualPreservationSnapshot) : Prop where
  stableId : snapshot.diskStableId = before.stableId
  size : snapshot.diskSizeBytes = before.expectedSizeBytes
  table : snapshot.partitionTable = before.partitionTable
  tableUuid : snapshot.partitionTableUuid = before.partitionTableUuid
  replaced : snapshot.reinitializesGpt = replacesTable graph
  kept : snapshot.partitions = (preservedPartitions before graph).map preservedPartition
  resized : ∀ r, r ∈ snapshot.resizedPartitions ↔
    r ∈ (declaredResizes before graph).map fun r => (preservedPartition r.1, r.2)
  removed : ∀ partuuid, partuuid ∈ snapshot.deletedPartuuids ↔
    partuuid ∈ removedPartuuids before graph

theorem ManualPlan.operations (h : ManualPlan plan before graph selection) :
    ∃ rest, graph.operations = tableOperations before selection ++ rest := by
  obtain ⟨rootId, espId, mounts, hcanonical⟩ := h.canonical
  rw [hcanonical]
  exact ⟨_, rfl⟩

theorem ManualPlan.resizes (h : ManualPlan plan before graph selection) :
    graph.partitionResizes = partitionResizes before selection := by
  obtain ⟨rootId, espId, mounts, hcanonical⟩ := h.canonical
  rw [hcanonical]
  rfl

/-- A declared resize comes from a request for the partition. -/
theorem mem_partitionResizes {d : PartitionResizeDeclaration}
    (h : d ∈ partitionResizes before selection) :
    selection.reinitializeGpt = false ∧ ∃ request ∈ selection.resizedPartitions,
      d.targetReferenceId = existingPartitionReferenceId (diskId before.stableId)
        request.partuuid := by
  unfold partitionResizes existingReferences at h
  obtain ⟨reference, hreference, hd⟩ := List.mem_filterMap.mp h
  split at hreference
  · cases hreference
  · rename_i hkeep
    obtain ⟨p, -, rfl⟩ := List.mem_map.mp hreference
    obtain ⟨request, hrequest, rfl⟩ := Option.map_eq_some_iff.mp hd
    refine ⟨by simpa using hkeep, request, entry_mem hrequest, ?_⟩
    rw [entry_key hrequest]
    rfl

theorem ManualPlan.resize_marked (h : ManualPlan plan before graph selection)
    {p : PartitionInventory} {d : PartitionResizeDeclaration}
    (hd : entry PartitionResizeDeclaration.targetReferenceId graph.partitionResizes
      (referenceOf before p) = some d) :
    ⟨.resizePartition, referenceOf before p⟩ ∈ graph.operations := by
  have hmem := entry_mem hd
  have hkey := entry_key hd
  rw [h.resizes] at hmem
  obtain ⟨hkeep, -⟩ := mem_partitionResizes hmem
  obtain ⟨rest, hoperations⟩ := h.operations
  rw [hoperations]
  unfold tableOperations
  simp only [hkeep, Bool.false_eq_true, if_false, List.mem_append]
  refine Or.inl (Or.inl (Or.inr ?_))
  rw [← hkey]
  exact List.mem_map.mpr ⟨d, hmem, rfl⟩

/-- A partition with a declared resize is the only one with its PARTUUID. -/
theorem ManualPlan.resize_unique (h : ManualPlan plan before graph selection)
    {p q : PartitionInventory} {d : PartitionResizeDeclaration}
    (hd : entry PartitionResizeDeclaration.targetReferenceId graph.partitionResizes
      (referenceOf before p) = some d)
    (hp : p ∈ before.partitions) (hq : q ∈ before.partitions)
    (hsame : partuuidOf q = partuuidOf p) : q = p := by
  have hmem := entry_mem hd
  have hkey := entry_key hd
  rw [h.resizes] at hmem
  obtain ⟨-, request, hrequest, htarget⟩ := mem_partitionResizes hmem
  have hpartuuid : p.identity.partuuid = request.partuuid := by
    rw [hkey] at htarget
    exact existingPartitionReferenceId_inj.mp htarget
  exact h.layout.resizedOnce request hrequest q hq p hp (hsame.trans hpartuuid) hpartuuid

theorem mem_declaredResizes {r : PartitionInventory × ℤ} :
    r ∈ declaredResizes before graph ↔ r.1 ∈ before.partitions ∧
      ∃ d, entry PartitionResizeDeclaration.targetReferenceId graph.partitionResizes
        (referenceOf before r.1) = some d ∧ d.targetSizeBytes = r.2 := by
  unfold declaredResizes
  rw [List.mem_filterMap]
  constructor
  · rintro ⟨p, hp, hr⟩
    obtain ⟨d, hd, rfl⟩ := Option.map_eq_some_iff.mp hr
    exact ⟨hp, d, hd, rfl⟩
  · rintro ⟨hp, d, hd, htarget⟩
    refine ⟨r.1, hp, ?_⟩
    rw [hd, Option.map_some, htarget]

/-- The resized partitions of a snapshot are the declared ones. -/
theorem ManualPlan.resized_iff (h : ManualPlan plan before graph selection)
    {resizes : List (String × ℤ)} {partitions : List (PreservedPartition × ℤ)}
    (hresizes : ∀ resize, resize ∈ resizes ↔ ∃ p ∈ before.partitions,
      ⟨.resizePartition, referenceOf before p⟩ ∈ graph.operations ∧
        ∃ d, entry PartitionResizeDeclaration.targetReferenceId graph.partitionResizes
          (referenceOf before p) = some d ∧ resize = (partuuidOf p, d.targetSizeBytes))
    (hpartitions : resizes.mapM (resizedPartition before) = .ok partitions)
    (r : PreservedPartition × ℤ) :
    r ∈ partitions ↔
      r ∈ (declaredResizes before graph).map fun r => (preservedPartition r.1, r.2) := by
  -- the look-up by PARTUUID finds the partition itself
  have hlookup : ∀ p ∈ before.partitions, ∀ d,
      entry PartitionResizeDeclaration.targetReferenceId graph.partitionResizes
        (referenceOf before p) = some d →
      resizedPartition before (partuuidOf p, d.targetSizeBytes) =
        .ok (preservedPartition p, d.targetSizeBytes) := by
    intro p hp d hd
    have hfound : before.partitions.find? (fun item => item.identity.partuuid == partuuidOf p) =
        some p := by
      cases hfind : before.partitions.find? fun item => item.identity.partuuid == partuuidOf p with
      | none =>
        have hnone := List.find?_eq_none.mp hfind p hp
        simp [partuuidOf] at hnone
      | some q =>
        have hq := List.find?_some hfind
        rw [h.resize_unique hd hp (List.mem_of_find?_eq_some hfind)
          (by simpa [partuuidOf] using hq)]
    unfold resizedPartition
    simp only [hfound, keyed]
    rfl
  rw [mapM_ok hpartitions, List.mem_map]
  constructor
  · rintro ⟨resize, hmem, hr⟩
    obtain ⟨p, hp, -, d, hd, rfl⟩ := (hresizes resize).mp hmem
    rw [hlookup p hp d hd] at hr
    cases hr
    exact ⟨(p, d.targetSizeBytes), mem_declaredResizes.mpr ⟨hp, d, hd, rfl⟩, rfl⟩
  · rintro ⟨⟨p, target⟩, hmem, rfl⟩
    obtain ⟨hp, d, hd, rfl⟩ := mem_declaredResizes.mp hmem
    exact ⟨_, (hresizes _).mpr ⟨p, hp, h.resize_marked hd, d, hd, rfl⟩, hlookup p hp d hd⟩

theorem marked_iff {action : StorageGraphAction} {p : PartitionInventory}
    (hp : p ∈ before.partitions) :
    (∃ q ∈ before.partitions, ⟨action, referenceOf before q⟩ ∈ graph.operations ∧
      partuuidOf q = partuuidOf p) ↔ ⟨action, referenceOf before p⟩ ∈ graph.operations := by
  constructor
  · rintro ⟨q, -, hmarked, hsame⟩
    rwa [referenceOf_inj.mpr hsame] at hmarked
  · intro hmarked
    exact ⟨p, hp, hmarked, rfl⟩

theorem replacesTable_iff {boot : BootTarget}
    (hwrites : graph.operations.mapM (manualWrite casing plan before diskPath graph boot) =
      .ok writeSet.operations) :
    (!(writesWith writeSet .replacePartitionTable).isEmpty) = replacesTable graph := by
  rw [Bool.eq_iff_iff]
  unfold writesWith replacesTable
  simp only [Bool.not_eq_true', List.isEmpty_eq_false_iff_exists_mem, List.mem_filter,
    List.any_eq_true]
  constructor
  · rintro ⟨w, hw, haction⟩
    obtain ⟨operation, hoperation, hwrite⟩ := (mapM_ok hwrites w).mp hw
    exact ⟨operation, hoperation, by rwa [← manualWrite_action hwrite]⟩
  · rintro ⟨operation, hoperation, haction⟩
    obtain ⟨w, hwrite⟩ := mapM_each hwrites operation hoperation
    exact ⟨w, (mapM_ok hwrites w).mpr ⟨operation, hoperation, hwrite⟩,
      by rwa [manualWrite_action hwrite]⟩

theorem selectedDisk_ok {stableId message : String} {disk : DiskInventory} :
    selectedDisk stableId message inventory = .ok disk ↔ inventory.disk stableId = .ok disk := by
  unfold selectedDisk
  cases inventory.disk stableId <;> simp

theorem built_manual
    (hset : buildManualStorageWriteSet casing plan diskPath inventory = .ok writeSet) :
    ∃ disk, validateManualStorageGraph casing plan inventory = .ok disk ∧
      writesOf plan (manualWrite casing plan disk diskPath) = .ok writeSet.operations := by
  unfold buildManualStorageWriteSet at hset
  rw [raiseIf_then_ok] at hset
  obtain ⟨-, hset⟩ := hset
  obtain ⟨disk, hdisk, hset⟩ := bind_ok.mp hset
  obtain ⟨operations, hoperations, hset⟩ := bind_ok.mp hset
  cases hset
  exact ⟨disk, hdisk, hoperations⟩

/-- The snapshot of an accepted manual plan holds what the graph marks. -/
theorem captured
    (hset : buildManualStorageWriteSet casing plan diskPath inventory = .ok writeSet)
    (hcapture : captureManualPreservationSnapshot plan inventory writeSet = .ok snapshot)
    (hbefore : inventory.disk plan.diskStableId = .ok before)
    (hgraph : plan.graph = some graph) :
    Captured before graph snapshot ∧
      (replacesTable graph = false → before.partitionTable = "gpt") := by
  obtain ⟨disk, hvalid, hwrites⟩ := built_manual hset
  obtain ⟨hdisk, graph', selection, hplan⟩ := manualPlan_of_valid hvalid
  rw [hbefore] at hdisk
  cases hdisk
  have hsame := hplan.carried
  rw [hgraph] at hsame
  cases hsame
  unfold writesOf at hwrites
  rw [hgraph] at hwrites
  obtain ⟨boot, -, hwrites⟩ := bind_ok.mp hwrites
  unfold captureManualPreservationSnapshot at hcapture
  simp only [raiseIf_then_ok] at hcapture
  obtain ⟨-, -, hcapture⟩ := hcapture
  obtain ⟨disk, hdisk, hcapture⟩ := bind_ok.mp hcapture
  rw [selectedDisk_ok, hbefore] at hdisk
  cases hdisk
  obtain ⟨preserved, hpreserved, hcapture⟩ := bind_ok.mp hcapture
  obtain ⟨deleted, hdeleted, hcapture⟩ := bind_ok.mp hcapture
  obtain ⟨resizes, hresizes, hcapture⟩ := bind_ok.mp hcapture
  rw [check_then_ok] at hcapture
  obtain ⟨-, hcapture⟩ := hcapture
  obtain ⟨partitions, hpartitions, hcapture⟩ := bind_ok.mp hcapture
  cases hcapture
  have hreplaced := replacesTable_iff hwrites
  refine ⟨⟨rfl, rfl, rfl, rfl, hreplaced, ?_,
    hplan.resized_iff (mem_resizes hwrites hresizes) hpartitions, ?_⟩, ?_⟩
  · apply congrArg (List.map preservedPartition)
    apply List.filter_congr
    intro p hp
    unfold marked
    rw [decide_eq_decide, ← marked_iff hp]
    exact mem_partuuidsOf hwrites (by simp) hpreserved _
  · intro partuuid
    simp only [hreplaced]
    unfold removedPartuuids
    cases hreplace : replacesTable graph with
    | true => simp [partuuidOf]
    | false =>
      simp only [Bool.false_eq_true, if_false, Bool.false_or, List.mem_map, List.mem_filter]
      rw [mem_partuuidsOf hwrites (by simp) hdeleted]
      simp [marked, and_assoc]
  · intro hreplace
    apply hplan.table
    obtain ⟨rest, hoperations⟩ := hplan.operations
    unfold replacesTable at hreplace
    rw [hoperations] at hreplace
    cases hreinitialize : selection.reinitializeGpt with
    | false => rfl
    | true => simp [tableOperations, hreinitialize] at hreplace

end Captured

section Verification

variable {casing : Casing} {plan : StoragePlan} {inventory afterInventory : StorageInventory}
  {diskPath : String} {before after : DiskInventory} {graph : StorageGraph}
  {writeSet : StorageWriteSet}

theorem numbersAre_congr {a b : List ℤ} (h : ∀ n, n ∈ a ↔ n ∈ b) :
    numbersAre after a = numbersAre after b := by
  rw [Bool.eq_iff_iff, numbersAre_iff, numbersAre_iff]
  simp only [h]

/-- The numbers that a snapshot and its graph expect. -/
theorem Captured.numbers {snapshot : ManualPreservationSnapshot}
    (h : Captured before graph snapshot) :
    numbersAre after (snapshot.partitions.map PreservedPartition.number ++
        snapshot.resizedPartitions.map (fun item => item.1.number) ++ graphNumbers graph) =
      numbersAre after (expectedNumbers graph (preservedPartitions before graph)
        (declaredResizes before graph)) := by
  apply numbersAre_congr
  intro n
  unfold expectedNumbers
  have hresized : n ∈ snapshot.resizedPartitions.map (fun item => item.1.number) ↔
      n ∈ (declaredResizes before graph).map fun r => numberOf r.1 := by
    simp only [List.mem_map, h.resized]
    constructor
    · rintro ⟨_, ⟨r, hr, rfl⟩, rfl⟩
      exact ⟨r, hr, rfl⟩
    · rintro ⟨r, hr, rfl⟩
      exact ⟨_, ⟨r, hr, rfl⟩, rfl⟩
  have hkept : snapshot.partitions.map PreservedPartition.number =
      (preservedPartitions before graph).map numberOf := by
    rw [h.kept, List.map_map]
    rfl
  rw [List.mem_append, List.mem_append, List.mem_append, List.mem_append, hresized, hkept]

/-- The verification of a snapshot that holds what the graph marks on the disk. -/
theorem verifyManual_iff {snapshot : ManualPreservationSnapshot}
    (hsnapshot : Captured before graph snapshot)
    (hgpt : replacesTable graph = false → before.partitionTable = "gpt")
    (hgraph : plan.graph = some graph)
    (hafter : ∀ disk ∈ afterInventory.disks, (disk.partitions.map numberOf).Nodup) :
    verifyManualStorageResult casing plan snapshot afterInventory = .ok () ↔
      ∃ after, afterInventory.disk before.stableId = .ok after ∧
        ManualOutcome casing before graph after := by
  unfold verifyManualStorageResult
  rw [bind_ok, hsnapshot.stableId]
  simp only [selectedDisk_ok]
  apply exists_congr
  intro after
  apply and_congr_right
  intro hdisk
  have hnumbers := hafter after (List.mem_of_find?_eq_some (keyed_ok.mp hdisk))
  have hchecks := @checks_iff casing graph after (preservedPartitions before graph)
    (declaredResizes before graph) (removedPartuuids before graph) hnumbers
  have hresized : (∀ r ∈ snapshot.resizedPartitions, verifyResized casing after r = .ok ()) ↔
      ∀ r ∈ declaredResizes before graph,
        verifyResized casing after (preservedPartition r.1, r.2) = .ok () := by
    simp only [hsnapshot.resized]
    exact List.forall_mem_map
  rw [raiseIf_then_ok, raiseIf_then_ok, raiseIf_then_ok, check_then_ok, check_then_ok,
    check_then_ok, hgraph]
  simp only [raiseIf_then_ok, hsnapshot.numbers]
  unfold verifyNewPartitions
  simp only [forM_ok_iff, hsnapshot.kept, List.forall_mem_map, hresized, hsnapshot.removed,
    hsnapshot.size, hsnapshot.table, hsnapshot.tableUuid, hsnapshot.replaced,
    bne_eq_false_iff_eq, Bool.not_eq_false']
  constructor
  · rintro ⟨hsize, htable, huuid, hkept, hshrunk, hdeleted, hnumber, hnew⟩
    obtain ⟨hdeclared, hids, hlast⟩ := hchecks.mp ⟨hkept, hshrunk, hdeleted, hnumber, hnew⟩
    refine ⟨hsize, htable, fun hreplace => ?_, hdeclared, hids, hlast⟩
    simpa [hreplace, htable, hgpt hreplace] using huuid
  · intro h
    obtain ⟨hkept, hshrunk, hdeleted, hnumber, hnew⟩ :=
      hchecks.mpr ⟨h.declared, h.identified, h.listedLast⟩
    refine ⟨h.size, h.gpt, ?_, hkept, hshrunk, hdeleted, hnumber, hnew⟩
    cases hreplace : replacesTable graph with
    | true => rfl
    | false => simp [h.gpt, hgpt hreplace, h.table hreplace]

theorem verifyGuided_iff {snapshot : GuidedPreservationSnapshot}
    (hcapture : captureGuidedPreservationSnapshot plan inventory writeSet = .ok snapshot)
    (hbefore : inventory.disk plan.diskStableId = .ok before)
    (hgraph : plan.graph = some graph)
    (hafter : ∀ disk ∈ afterInventory.disks, (disk.partitions.map numberOf).Nodup) :
    verifyGuidedStorageResult casing plan snapshot afterInventory = .ok () ↔
      ∃ after, afterInventory.disk before.stableId = .ok after ∧
        GuidedOutcome casing before graph after := by
  have hsnapshot : snapshot = ⟨before.stableId, before.expectedSizeBytes, before.partitionTable,
      before.partitionTableUuid, before.partitions.map preservedPartition⟩ := by
    unfold captureGuidedPreservationSnapshot at hcapture
    simp only [raiseIf_then_ok] at hcapture
    obtain ⟨-, -, hcapture⟩ := hcapture
    obtain ⟨disk, hdisk, hcapture⟩ := bind_ok.mp hcapture
    rw [selectedDisk_ok, hbefore] at hdisk
    cases hdisk
    rw [raiseIf_then_ok] at hcapture
    obtain ⟨-, hcapture⟩ := hcapture
    obtain ⟨preserved, -, hcapture⟩ := bind_ok.mp hcapture
    rw [raiseIf_then_ok] at hcapture
    exact (Except.ok.inj hcapture.2).symm
  subst hsnapshot
  unfold verifyGuidedStorageResult verifyGuidedPreservationSnapshot
  rw [check_then_ok, bind_ok]
  simp only [selectedDisk_ok, hgraph]
  rw [bind_ok]
  have hexpected : ∀ after, numbersAre after ((before.partitions.map preservedPartition).map
      PreservedPartition.number ++ graphNumbers graph) =
        numbersAre after (expectedNumbers graph before.partitions []) := by
    intro after
    apply numbersAre_congr
    simp [expectedNumbers, preservedPartition, numberOf]
  unfold verifyNewPartitions
  simp only [raiseIf_then_ok, forM_ok_iff, List.forall_mem_map, hexpected,
    Bool.or_eq_false_iff, bne_eq_false_iff_eq, Bool.not_eq_false']
  constructor
  · rintro ⟨⟨after, hdisk, hsize, ⟨htable, huuid⟩, hkept⟩, after', hdisk', hnumber, hnew⟩
    rw [hdisk] at hdisk'
    cases hdisk'
    have hnumbers := hafter after (List.mem_of_find?_eq_some (keyed_ok.mp hdisk))
    obtain ⟨hdeclared, hids, hlast⟩ := (@checks_iff casing _ after _ [] [] hnumbers).mp
      ⟨hkept, by simp, by simp, hnumber, hnew⟩
    refine ⟨after, hdisk, hsize, htable, huuid, hdeclared, hids, fun p hp => hlast p ?_⟩
    exact List.mem_append_left _ hp
  · rintro ⟨after, hdisk, h⟩
    have hnumbers := hafter after (List.mem_of_find?_eq_some (keyed_ok.mp hdisk))
    obtain ⟨hkept, -, -, hnumber, hnew⟩ :=
      (checks_iff hnumbers).mpr ⟨h.declared, h.identified, by simpa using h.listedLast⟩
    exact ⟨⟨after, hdisk, h.size, ⟨h.table, h.tableUuid⟩, hkept⟩, after, hdisk, hnumber, hnew⟩

/-- The verification of an accepted plan returns on exactly the disks that are as the plan
declares, with identified new partitions and no PARTUUID repeated after its partition. -/
theorem verified_iff_outcome (extentId : FreeExtent → String) (casing : Casing)
    (plan : StoragePlan) (diskPath : String) (inventory afterInventory : StorageInventory)
    (before : DiskInventory) (graph : StorageGraph) (writeSet : StorageWriteSet)
    (hbefore : inventory.disk plan.diskStableId = .ok before)
    (hgraph : plan.graph = some graph)
    (hafter : ∀ disk ∈ afterInventory.disks, (disk.partitions.map numberOf).Nodup) :
    (∀ snapshot, buildManualStorageWriteSet casing plan diskPath inventory = .ok writeSet →
      captureManualPreservationSnapshot plan inventory writeSet = .ok snapshot →
      (verifyManualStorageResult casing plan snapshot afterInventory = .ok () ↔
        ∃ after, afterInventory.disk before.stableId = .ok after ∧
          ManualOutcome casing before graph after)) ∧
    ∀ snapshot,
      buildGuidedCoexistenceWriteSet casing plan diskPath extentId inventory = .ok writeSet →
      captureGuidedPreservationSnapshot plan inventory writeSet = .ok snapshot →
      (verifyGuidedStorageResult casing plan snapshot afterInventory = .ok () ↔
        ∃ after, afterInventory.disk before.stableId = .ok after ∧
          GuidedOutcome casing before graph after) := by
  constructor
  · intro snapshot hset hcapture
    obtain ⟨hsnapshot, hgpt⟩ := captured hset hcapture hbefore hgraph
    exact verifyManual_iff hsnapshot hgpt hgraph hafter
  · intro snapshot _ hcapture
    exact verifyGuided_iff hcapture hbefore hgraph hafter

end Verification

section Example

/-- Case folding of ASCII text. -/
def asciiCasing : Casing :=
  let lower := fun s : String => String.ofList (s.toList.map Char.toLower)
  ⟨lower, lower⟩

def windowsPartition (sizeMib : ℤ) (filesystemType : String) : PartitionInventory where
  identity := ⟨"/dev/sda1", 1, "11111111-aaaa-4bbb-8ccc-000000000001", MIB, sizeMib * MIB⟩
  partitionType := "ebd0a0a2-b9e5-4433-87c0-68b6b72699c7"
  filesystemType := filesystemType
  filesystemUuid := "01D9A0B1C2D3E4F5"
  mountpoints := []
  flags := ["msftdata"]

def dataPartition : PartitionInventory where
  identity := ⟨"/dev/sda2", 2, "11111111-aaaa-4bbb-8ccc-000000000002", 20481 * MIB, 2048 * MIB⟩
  partitionType := "0fc63daf-8483-4772-8e79-3d69d8477de4"
  filesystemType := "ext4"
  filesystemUuid := "6a9e2c6e-0d5f-4b0c-8f53-1a2b3c4d5e6f"
  mountpoints := []
  flags := []

def sharedDisk (partitions : List PartitionInventory) (freeExtents : List FreeExtent) :
    DiskInventory where
  stableId := "wwn-0x5000"
  expectedSizeBytes := 64 * 1024 * MIB
  partitionTable := "gpt"
  partitionTableUuid := "5c2f7a10-0b5e-4d6e-9a51-3d1c6a0e7b11"
  partitions := partitions
  freeExtents := freeExtents
  topologyDigest := "0123456789abcdef0123456789abcdef0123456789abcdef0123456789abcdef"
  geometryProbeError := ""
  unsupportedDescendantTypes := []

def windowsDisk : DiskInventory :=
  sharedDisk [windowsPartition 20480 "ntfs", dataPartition] [⟨22529 * MIB, 40000 * MIB⟩]

def shrinkingLayout : ManualStorageSelection where
  diskStableId := "wwn-0x5000"
  diskSizeBytes := 64 * 1024 * MIB
  diskTopologyDigest := "0123456789abcdef0123456789abcdef0123456789abcdef0123456789abcdef"
  reinitializeGpt := false
  deletedPartuuids := []
  reusedEspPartuuid := ""
  filesystem := .ext4
  newPartitions := [⟨.efiSystem, 10241, 11265⟩, ⟨.root, 22529, 60000⟩]
  resizedPartitions := [⟨"11111111-aaaa-4bbb-8ccc-000000000001", 20480 * MIB, 10240⟩]

def shrinkingPlan (graph : Option StorageGraph) : StoragePlan where
  mode := .manual
  architecture := .amd64
  firmware := .uefi
  secureBoot := .disabled
  diskStableId := "wwn-0x5000"
  diskSizeBytes := 64 * 1024 * MIB
  filesystem := .ext4
  espSizeMib := 1024
  swapSizeMib := 0
  graph := graph

def shrinkingGraph : StorageGraph :=
  manualGraph (shrinkingPlan none) windowsDisk shrinkingLayout
    "fedcba9876543210fedcba9876543210fedcba9876543210fedcba9876543210"
    "disk:wwn-0x5000:new-partition:4" "disk:wwn-0x5000:new-partition:3"
    [⟨"disk:wwn-0x5000:new-partition:4", "/", .root⟩,
      ⟨"disk:wwn-0x5000:new-partition:3", "/boot/efi", .efi⟩]

def newEsp (partuuid : String) : PartitionInventory where
  identity := ⟨"/dev/sda3", 3, partuuid, 10241 * MIB, 1024 * MIB⟩
  partitionType := "c12a7328-f81f-11d2-ba4b-00a0c93ec93b"
  filesystemType := "vfat"
  filesystemUuid := "1A2B-3C4D"
  mountpoints := []
  flags := ["esp"]

def newRoot : PartitionInventory where
  identity := ⟨"/dev/sda4", 4, "11111111-aaaa-4bbb-8ccc-000000000004", 22529 * MIB, 37471 * MIB⟩
  partitionType := "0fc63daf-8483-4772-8e79-3d69d8477de4"
  filesystemType := "ext4"
  filesystemUuid := "7b9e2c6e-0d5f-4b0c-8f53-1a2b3c4d5e6f"
  mountpoints := []
  flags := []

/-- The write set, the snapshot and the verification of the layout on a disk afterwards. -/
def verifyShrinking (after : DiskInventory) : Except String Unit := do
  let plan := shrinkingPlan (some shrinkingGraph)
  let writeSet ← buildManualStorageWriteSet asciiCasing plan "/dev/sda" ⟨[windowsDisk]⟩
  let snapshot ← captureManualPreservationSnapshot plan ⟨[windowsDisk]⟩ writeSet
  verifyManualStorageResult asciiCasing plan snapshot ⟨[after]⟩

def shrunkDisk : DiskInventory :=
  sharedDisk [windowsPartition 10240 "ntfs", dataPartition,
    newEsp "11111111-aaaa-4bbb-8ccc-000000000003", newRoot] []

theorem shrunkDisk_outcome : ∃ after, (StorageInventory.mk [shrunkDisk]).disk "wwn-0x5000" =
    .ok after ∧ ManualOutcome asciiCasing windowsDisk shrinkingGraph after := by
  have hverify : verifyShrinking shrunkDisk = .ok () := by decide +kernel
  obtain ⟨writeSet, hset, hverify⟩ := bind_ok.mp hverify
  obtain ⟨snapshot, hcapture, hverify⟩ := bind_ok.mp hverify
  have hiff := (verified_iff_outcome (fun _ => "") asciiCasing
    (shrinkingPlan (some shrinkingGraph)) "/dev/sda" ⟨[windowsDisk]⟩ ⟨[shrunkDisk]⟩ windowsDisk
    shrinkingGraph writeSet (by decide +kernel) rfl (by decide +kernel)).1 snapshot hset hcapture
  exact hiff.mp hverify

/-- The new EFI partition has the PARTUUID of the data partition; `listed` gives the order. -/
def repeatingDisk (listed : PartitionInventory → PartitionInventory → List PartitionInventory) :
    DiskInventory :=
  sharedDisk (windowsPartition 10240 "ntfs" :: newRoot ::
    listed dataPartition (newEsp dataPartition.identity.partuuid)) []

theorem AsDeclared.congr {casing : Casing} {graph : StorageGraph} {after other : DiskInventory}
    {kept : List PartitionInventory} {resized : List (PartitionInventory × ℤ)}
    {deleted : List String} (h : AsDeclared casing graph after kept resized deleted)
    (hmem : ∀ q, q ∈ other.partitions ↔ q ∈ after.partitions) :
    AsDeclared casing graph other kept resized deleted where
  keeps p hp := by simpa only [hmem] using h.keeps p hp
  shrinks r hr := by simpa only [hmem] using h.shrinks r hr
  creates d hd := by simpa only [hmem] using h.creates d hd
  nothingElse q hq := h.nothingElse q ((hmem q).mp hq)
  deletes partuuid hp q hq := h.deletes partuuid hp q ((hmem q).mp hq)

theorem repeatingDisk_declared : ManualOutcome asciiCasing windowsDisk shrinkingGraph
    (repeatingDisk fun data esp => [esp, data]) := by
  have hverify : verifyShrinking (repeatingDisk fun data esp => [esp, data]) = .ok () := by
    decide +kernel
  obtain ⟨writeSet, hset, hverify⟩ := bind_ok.mp hverify
  obtain ⟨snapshot, hcapture, hverify⟩ := bind_ok.mp hverify
  have hbefore : (StorageInventory.mk [windowsDisk]).disk
      (shrinkingPlan (some shrinkingGraph)).diskStableId = .ok windowsDisk := by
    decide +kernel
  obtain ⟨hsnapshot, hgpt⟩ := captured hset hcapture hbefore rfl
  obtain ⟨after, hafter, houtcome⟩ :=
    (verifyManual_iff hsnapshot hgpt rfl (by decide +kernel)).mp hverify
  have hsame : (StorageInventory.mk [repeatingDisk fun data esp => [esp, data]]).disk
      windowsDisk.stableId = .ok (repeatingDisk fun data esp => [esp, data]) := by decide +kernel
  rw [hsame] at hafter
  cases hafter
  exact houtcome

def recasedDisk : DiskInventory :=
  sharedDisk [windowsPartition 10240 "NTFS", dataPartition,
    newEsp "11111111-aaaa-4bbb-8ccc-000000000003", newRoot] []

/-- A disk as declared is refused when the new partition that repeats a PARTUUID is listed
last, and a resized partition may come back with another text for its filesystem. -/
theorem verification_is_not_exact :
    (AsDeclared asciiCasing shrinkingGraph (repeatingDisk fun data esp => [data, esp])
        (preservedPartitions windowsDisk shrinkingGraph)
        (declaredResizes windowsDisk shrinkingGraph) (removedPartuuids windowsDisk shrinkingGraph) ∧
      NewIdentified shrinkingGraph (repeatingDisk fun data esp => [data, esp]) ∧
      verifyShrinking (repeatingDisk fun data esp => [data, esp]) =
        .error "Preserved partition changed: 11111111-aaaa-4bbb-8ccc-000000000002") ∧
    verifyShrinking recasedDisk = .ok () ∧
    ∃ r ∈ declaredResizes windowsDisk shrinkingGraph, ∃ q ∈ recasedDisk.partitions,
      numberOf q = numberOf r.1 ∧ q.filesystemType ≠ r.1.filesystemType := by
  have hmem : ∀ q, q ∈ (repeatingDisk fun data esp => [data, esp]).partitions ↔
      q ∈ (repeatingDisk fun data esp => [esp, data]).partitions := by
    intro q
    simp only [repeatingDisk, sharedDisk, List.mem_cons, List.not_mem_nil, or_false]
    tauto
  refine ⟨⟨repeatingDisk_declared.declared.congr hmem, fun d hd q hq => ?_, by decide +kernel⟩,
    by decide +kernel, by decide +kernel⟩
  exact repeatingDisk_declared.identified d hd q ((hmem q).mp hq)

end Example

end Installer
