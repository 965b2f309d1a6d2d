import SynOSStudio.Installer.CreatedPartitions

/-!
# Choices of a manual plan

What an accepted manual plan settles beyond the geometry of its layout, and the operations that
its canonical graph lists.
-/

namespace Installer

open IntervalLists KeyedLists PartitionTables

/-! ## Accepted choices -/

section Choices

variable {casing : Casing} {plan : StoragePlan} {inventory : StorageInventory}
  {disk : DiskInventory} {graph : StorageGraph} {selection : ManualStorageSelection}

/-- What the commands need of a layout beyond its geometry. -/
structure Chosen (disk : DiskInventory) (selection : ManualStorageSelection) : Prop where
  accepted : Accepted disk selection
  deletedOnce : ∀ p ∈ disk.partitions, ∀ q ∈ disk.partitions,
    partuuidOf p ∈ selection.deletedPartuuids → partuuidOf q = partuuidOf p → q = p
  targets : ∀ request ∈ selection.resizedPartitions, 0 < request.targetSizeMib
  roles : (selection.newPartitions.map ManualPartitionRequest.role).Nodup
  esp : selection.reusedEspPartuuid ≠ "" →
    .efiSystem ∉ selection.newPartitions.map ManualPartitionRequest.role

/-- An accepted manual plan with the layout that its graph describes. -/
structure ManualChoice (plan : StoragePlan) (disk : DiskInventory) (graph : StorageGraph)
    (selection : ManualStorageSelection) : Prop where
  carried : plan.graph = some graph
  chosen : Chosen disk selection
  canonical : ∃ rootId espId mounts, manualEspId disk selection = .ok espId ∧
    graph = manualGraph plan disk selection graph.inventoryDigest rootId espId mounts

/-- The layout of a graph lists every partition whose reference is marked for deletion. -/
theorem deletedOnce_of_described (hdescribed : selectionFromGraph plan disk graph = .ok selection)
    (hnodup : selection.deletedPartuuids.Nodup) {p q : PartitionInventory}
    (hp : p ∈ disk.partitions) (hq : q ∈ disk.partitions)
    (hdeleted : partuuidOf p ∈ selection.deletedPartuuids) (hsame : partuuidOf q = partuuidOf p) :
    q = p := by
  unfold selectionFromGraph at hdescribed
  dsimp only at hdescribed
  split at hdescribed
  · cases hdescribed
  obtain ⟨espId, -, hdescribed⟩ := bind_ok.mp hdescribed
  obtain ⟨requests, -, hdescribed⟩ := bind_ok.mp hdescribed
  cases hdescribed
  obtain ⟨r, hr, hpartuuid⟩ := List.mem_map.mp hdeleted
  have hmarked : ∀ x ∈ disk.partitions, partuuidOf x = partuuidOf p → x ∈
      disk.partitions.filter fun item => existingPartitionReferenceId (diskId disk.stableId)
        item.identity.partuuid ∈ targets graph .deletePartition := by
    intro x hx hsame
    refine List.mem_filter.mpr ⟨hx, ?_⟩
    have hxr : x.identity.partuuid = r.identity.partuuid := hsame.trans hpartuuid.symm
    rw [hxr]
    exact (List.mem_filter.mp hr).2
  exact List.inj_on_of_nodup_map hnodup (hmarked q hq hsame) (hmarked p hp rfl) hsame

theorem chosen_of_valid (hvalid : validateManualSelection casing disk selection = .ok ())
    (hdescribed : selectionFromGraph plan disk graph = .ok selection) : Chosen disk selection := by
  have haccepted := accepted hvalid
  unfold validateManualSelection at hvalid
  simp only [raiseIf_then_ok] at hvalid
  obtain ⟨-, -, -, hvalid⟩ := hvalid
  split at hvalid
  · cases hvalid
  rw [check_then_ok, check_then_ok, check_then_ok, check_then_ok] at hvalid
  obtain ⟨hdeletions, hresizes, -, hroles, -⟩ := hvalid
  unfold validateDeletions at hdeletions
  simp only [raiseIf_then_ok] at hdeletions
  unfold validateResizes at hresizes
  simp only [raiseIf_then_ok] at hresizes
  obtain ⟨-, -, -, -, -, hresizes⟩ := hresizes
  unfold validateRoles at hroles
  simp only [raiseIf_then_ok] at hroles
  obtain ⟨-, honce, -, hesp, -⟩ := hroles
  refine ⟨haccepted, fun p hp q hq hdeleted hsame => ?_, fun request hrequest => ?_,
    by simpa using honce, fun hreused => ?_⟩
  · exact deletedOnce_of_described hdescribed (by simpa using hdeletions.1) hp hq hdeleted hsame
  · have hresize := forM_ok hresizes request hrequest
    unfold validateResize at hresize
    split at hresize
    · cases hresize
    · simp only [raiseIf_then_ok, raiseIf_ok] at hresize
      obtain ⟨-, -, -, hbounds⟩ := hresize
      rw [Bool.or_eq_false_iff, decide_eq_false_iff_not] at hbounds
      have hleast := hbounds.1
      unfold MINIMUM_NTFS_MIB at hleast
      omega
  · rw [if_neg hreused] at hesp
    rw [← List.count_eq_zero]
    simpa using hesp

theorem manualChoice_of_valid
    (h : validateManualStorageGraph casing plan inventory = .ok disk) :
    inventory.disk plan.diskStableId = .ok disk ∧
      ∃ graph selection, ManualChoice plan disk graph selection := by
  refine ⟨(manualPlan_of_valid h).1, ?_⟩
  unfold validateManualStorageGraph at h
  obtain ⟨graph, hheader, h⟩ := bind_ok.mp h
  rw [raiseIf_then_ok, check_then_ok] at h
  obtain ⟨-, -, h⟩ := h
  obtain ⟨reference, -, h⟩ := bind_ok.mp h
  obtain ⟨found, hfound, h⟩ := bind_ok.mp h
  obtain ⟨selection, hdescribed, h⟩ := bind_ok.mp h
  obtain ⟨expected, hbuild, h⟩ := bind_ok.mp h
  rw [raiseIf_then_ok] at h
  obtain ⟨hequal, h⟩ := h
  cases h
  obtain rfl : graph = expected := by simpa using hequal
  unfold buildManualStorageGraph at hbuild
  simp only [raiseIf_then_ok] at hbuild
  obtain ⟨-, -, -, -, hbuild⟩ := hbuild
  rw [check_then_ok, raiseIf_then_ok] at hbuild
  obtain ⟨hvalid, -, hbuild⟩ := hbuild
  obtain ⟨espId, hesp, hbuild⟩ := bind_ok.mp hbuild
  obtain ⟨rootId, -, hbuild⟩ := bind_ok.mp hbuild
  obtain ⟨mounts, -, hbuild⟩ := bind_ok.mp hbuild
  exact ⟨graph, selection, graph_of_header hheader, chosen_of_valid hvalid hdescribed, rootId,
    espId, mounts, hesp, (Except.ok.inj hbuild).symm⟩

end Choices

/-! ## The canonical graph -/

section Canonical

variable {plan : StoragePlan} {disk : DiskInventory} {graph : StorageGraph}
  {selection : ManualStorageSelection}

theorem ManualChoice.partitions (h : ManualChoice plan disk graph selection) :
    graph.partitions = declarePartitions disk selection ∧
      graph.partitionResizes = partitionResizes disk selection := by
  obtain ⟨rootId, espId, mounts, -, hcanonical⟩ := h.canonical
  rw [hcanonical]
  exact ⟨rfl, rfl⟩

theorem filter_action_eq_nil {operations : List StorageGraphOperation}
    {actions : List StorageGraphAction} {action : StorageGraphAction}
    (h : ∀ item ∈ operations, item.action ∈ actions) (haction : action ∉ actions) :
    operations.filter (fun item => item.action == action) = [] := by
  rw [List.filter_eq_nil_iff]
  intro item hitem hsame
  exact haction (beq_iff_eq.mp hsame ▸ h item hitem)

theorem creation_actions {rootId espId : String} {parts : List PartitionDeclaration} :
    ∀ item ∈ creationOperations plan rootId espId parts, item.action ∈
      [StorageGraphAction.createPartition, .format, .createSubvolume, .configureMounts,
        .writeBootFiles, .updateNvram] := by
  intro item hitem
  simp only [creationOperations, List.mem_append, List.mem_map, List.mem_cons, List.not_mem_nil,
    or_false] at hitem
  rcases hitem with ((⟨_, -, rfl⟩ | ⟨_, -, rfl⟩) | ⟨_, -, rfl⟩) | rfl | rfl | rfl <;> simp

theorem table_actions : ∀ item ∈ tableOperations disk selection, item.action ∈
    [StorageGraphAction.replacePartitionTable, .preserve, .deletePartition, .resizePartition,
      .modifyPartitionTable] := by
  intro item hitem
  unfold tableOperations at hitem
  split at hitem
  · rw [List.mem_singleton.mp hitem]
    simp
  · simp only [List.mem_append, List.mem_map, List.mem_singleton] at hitem
    rcases hitem with ((⟨_, -, rfl⟩ | ⟨_, -, rfl⟩) | ⟨_, -, rfl⟩) | rfl <;> simp

theorem ManualChoice.targets_of_table (h : ManualChoice plan disk graph selection)
    {action : StorageGraphAction}
    (haction : action ∈ [StorageGraphAction.replacePartitionTable, .deletePartition, .preserve]) :
    targets graph action = ((tableOperations disk selection).filter fun item =>
      item.action == action).map StorageGraphOperation.targetId := by
  obtain ⟨rootId, espId, mounts, -, hcanonical⟩ := h.canonical
  have hcreation : (creationOperations plan rootId espId (declarePartitions disk selection)).filter
      (fun item => item.action == action) = [] := by
    refine filter_action_eq_nil creation_actions fun hcreates => ?_
    simp only [List.mem_cons, List.not_mem_nil, or_false] at haction
    rcases haction with rfl | rfl | rfl <;> simp at hcreates
  rw [hcanonical, targets, manualGraph, List.filter_append, hcreation, List.append_nil]

theorem ManualChoice.formats (h : ManualChoice plan disk graph selection) :
    targets graph .format = graph.partitions.map PartitionDeclaration.partitionId := by
  obtain ⟨rootId, espId, mounts, -, hcanonical⟩ := h.canonical
  have hcreation := formats_creationOperations plan rootId espId
    (declarePartitions disk selection)
  have htable : (tableOperations disk selection).filter (fun item => item.action == .format) =
      [] := filter_action_eq_nil table_actions (by simp)
  rw [hcanonical, targets, manualGraph, List.filter_append, htable, List.nil_append]
  exact hcreation

theorem ManualChoice.replaces (h : ManualChoice plan disk graph selection) :
    (!(targets graph .replacePartitionTable).isEmpty) = selection.reinitializeGpt ∧
      replacesTable graph = selection.reinitializeGpt := by
  have htargets : (!(targets graph .replacePartitionTable).isEmpty) =
      selection.reinitializeGpt := by
    have hpreserve : (StorageGraphAction.preserve == .replacePartitionTable) = false := rfl
    have hdelete : (StorageGraphAction.deletePartition == .replacePartitionTable) = false := rfl
    have hresize : (StorageGraphAction.resizePartition == .replacePartitionTable) = false := rfl
    have hmodify : (StorageGraphAction.modifyPartitionTable == .replacePartitionTable) = false :=
      rfl
    rw [h.targets_of_table (by simp), tableOperations]
    cases selection.reinitializeGpt with
    | true => rfl
    | false => simp [List.filter_map, Function.comp_def, hpreserve, hdelete, hresize, hmodify]
  refine ⟨htargets, ?_⟩
  rw [← htargets, replacesTable, targets, List.isEmpty_map, Bool.eq_iff_iff]
  simp only [Bool.not_eq_true', List.isEmpty_eq_false_iff_exists_mem, List.mem_filter,
    List.any_eq_true]

/-- The references to delete, in the order of the disk. -/
theorem ManualChoice.deletes (h : ManualChoice plan disk graph selection)
    (hkeep : selection.reinitializeGpt = false) :
    targets graph .deletePartition = (disk.partitions.filter fun p =>
      partuuidOf p ∈ selection.deletedPartuuids).map (referenceOf disk) := by
  have hpreserve : (StorageGraphAction.preserve == .deletePartition) = false := rfl
  have hresize : (StorageGraphAction.resizePartition == .deletePartition) = false := rfl
  have hmodify : (StorageGraphAction.modifyPartitionTable == .deletePartition) = false := rfl
  rw [h.targets_of_table (by simp), tableOperations, hkeep]
  simp only [Bool.false_eq_true, if_false, List.filter_append, List.filter_map, Function.comp_def,
    hpreserve, hresize, List.filter_cons, hmodify, List.filter_nil, beq_self_eq_true,
    List.filter_true, List.map_nil, List.filter_false, List.nil_append, List.append_nil,
    List.map_map, deletedReferences, existingReferences, hkeep]
  rfl

theorem ManualChoice.marked_delete (h : ManualChoice plan disk graph selection)
    (hkeep : selection.reinitializeGpt = false) {p : PartitionInventory}
    (hp : p ∈ disk.partitions) :
    marked disk graph .deletePartition p = decide (partuuidOf p ∈ selection.deletedPartuuids) := by
  have htarget : ⟨.deletePartition, referenceOf disk p⟩ ∈ graph.operations ↔
      referenceOf disk p ∈ targets graph .deletePartition := by
    constructor
    · exact fun hmem => List.mem_map.mpr ⟨_, List.mem_filter.mpr ⟨hmem, by simp⟩, rfl⟩
    · intro hmem
      obtain ⟨⟨action, target⟩, hitem, rfl⟩ := List.mem_map.mp hmem
      obtain ⟨hoperation, haction⟩ := List.mem_filter.mp hitem
      obtain rfl : action = .deletePartition := beq_iff_eq.mp haction
      exact hoperation
  rw [marked, decide_eq_decide, htarget, h.deletes hkeep, List.mem_map]
  constructor
  · rintro ⟨q, hq, hsame⟩
    rw [← referenceOf_inj.mp hsame]
    simpa using (List.mem_filter.mp hq).2
  · exact fun hdeleted => ⟨p, List.mem_filter.mpr ⟨hp, by simpa using hdeleted⟩, rfl⟩

end Canonical

end Installer
