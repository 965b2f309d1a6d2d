import SynOSStudio.Installer.DeclaredDisk

/-!
# Snapshots of accepted plans

An accepted manual plan carries the canonical graph of a valid layout, and the snapshot taken
from its write set holds what the graph marks on the disk.
-/

namespace Installer

open KeyedLists

section Accepted

variable {casing : Casing} {plan : StoragePlan} {inventory : StorageInventory}
  {disk : DiskInventory}

theorem disk_found {stableId : String} (h : inventory.disk stableId = .ok disk) :
    disk.stableId = stableId := by
  have hfound := List.find?_some (keyed_ok.mp h)
  simpa using hfound

theorem verifyDiskTopology_found {binding : DiskTopologyBinding}
    (h : verifyDiskTopology binding inventory = .ok disk) :
    inventory.disk binding.stableId = .ok disk := by
  unfold verifyDiskTopology at h
  cases hdisk : inventory.disk binding.stableId with
  | error e =>
    rw [hdisk] at h
    cases h
  | ok found =>
    rw [hdisk] at h
    simp only [raiseIf_then_ok] at h
    obtain ⟨-, -, h⟩ := h
    cases h
    rfl

/-- What an accepted manual plan is made of. -/
structure ManualPlan (plan : StoragePlan) (disk : DiskInventory) (graph : StorageGraph)
    (selection : ManualStorageSelection) : Prop where
  carried : plan.graph = some graph
  stableId : plan.diskStableId = disk.stableId
  layout : Accepted disk selection
  table : selection.reinitializeGpt = false → disk.partitionTable = "gpt"
  canonical : ∃ rootId espId mounts,
    graph = manualGraph plan disk selection graph.inventoryDigest rootId espId mounts

theorem gpt_of_valid {selection : ManualStorageSelection}
    (h : validateManualSelection casing disk selection = .ok ())
    (hkeep : selection.reinitializeGpt = false) : disk.partitionTable = "gpt" := by
  unfold validateManualSelection at h
  simp only [raiseIf_then_ok] at h
  obtain ⟨-, -, -, h⟩ := h
  split at h
  · cases h
  · rename_i hreason
    unfold manualLayoutBlockReason at hreason
    by_contra hother
    rw [hkeep] at hreason
    simp only [hother, bne_iff_ne, ne_eq, not_false_eq_true, Bool.not_false, Bool.true_and,
      if_true] at hreason
    split at hreason <;> cases hreason

theorem manualPlan_of_valid (h : validateManualStorageGraph casing plan inventory = .ok disk) :
    inventory.disk plan.diskStableId = .ok disk ∧
      ∃ graph selection, ManualPlan plan disk graph selection := by
  unfold validateManualStorageGraph at h
  obtain ⟨graph, hheader, h⟩ := bind_ok.mp h
  rw [raiseIf_then_ok, check_then_ok] at h
  obtain ⟨-, -, h⟩ := h
  obtain ⟨reference, -, h⟩ := bind_ok.mp h
  obtain ⟨found, hfound, h⟩ := bind_ok.mp h
  obtain ⟨selection, -, h⟩ := bind_ok.mp h
  obtain ⟨expected, hbuild, h⟩ := bind_ok.mp h
  rw [raiseIf_then_ok] at h
  obtain ⟨hequal, h⟩ := h
  cases h
  replace hequal : graph = expected := by simpa using hequal
  subst hequal
  have hgraph : plan.graph = some graph := by
    unfold validateGraphHeader at hheader
    split at hheader
    · cases hheader
    · rename_i g hplan
      simp only [raiseIf_then_ok] at hheader
      obtain ⟨-, -, -, hheader⟩ := hheader
      cases hheader
      exact hplan
  unfold buildManualStorageGraph at hbuild
  simp only [raiseIf_then_ok] at hbuild
  obtain ⟨-, -, hdisk, -, hbuild⟩ := hbuild
  rw [check_then_ok, raiseIf_then_ok] at hbuild
  obtain ⟨hvalid, -, hbuild⟩ := hbuild
  obtain ⟨espId, -, hbuild⟩ := bind_ok.mp hbuild
  obtain ⟨rootId, -, hbuild⟩ := bind_ok.mp hbuild
  obtain ⟨mounts, -, hbuild⟩ := bind_ok.mp hbuild
  have hcanonical : manualGraph plan disk selection graph.inventoryDigest rootId espId mounts =
      graph := Except.ok.inj hbuild
  simp only [Bool.or_eq_false_iff, bne_eq_false_iff_eq] at hdisk
  have hlookup := verifyDiskTopology_found hfound
  have hid := disk_found hlookup
  simp only at hlookup hid
  refine ⟨?_, graph, selection, hgraph, hdisk.1, accepted hvalid, gpt_of_valid hvalid, rootId, espId,
    mounts, hcanonical.symm⟩
  rw [hdisk.1, hid]
  exact hlookup

end Accepted

section Writes

variable {casing : Casing} {plan : StoragePlan} {disk : DiskInventory} {diskPath : String}
  {graph : StorageGraph} {boot : BootTarget} {operation : StorageGraphOperation}
  {write : StorageWriteOperation}

/-- The reference of a partition in the graphs of its disk. -/
def referenceOf (disk : DiskInventory) (p : PartitionInventory) : String :=
  existingPartitionReferenceId (diskId disk.stableId) p.identity.partuuid

theorem referenceOf_inj {p q : PartitionInventory} :
    referenceOf disk p = referenceOf disk q ↔ partuuidOf p = partuuidOf q :=
  existingPartitionReferenceId_inj

theorem existingTarget_some {target : String} {p : PartitionInventory}
    (h : existingTarget disk target = some p) : p ∈ disk.partitions ∧ referenceOf disk p = target :=
  ⟨entry_mem h, entry_key h⟩

theorem creationWrite_action {mode zram : String}
    {extra : PartitionDeclaration → List (String × String)}
    (h : creationWrite plan disk diskPath graph mode zram extra boot operation = .ok write) :
    write.action = operation.action := by
  unfold creationWrite at h
  cases haction : operation.action <;> simp only [haction] at h
  case createPartition =>
    obtain ⟨item, -, h⟩ := bind_ok.mp h
    cases hend : item.endMib with
    | none => simp [hend] at h
    | some endMib =>
      simp only [hend] at h
      obtain ⟨path, -, h⟩ := bind_ok.mp h
      cases h
      rfl
  case format | createSubvolume =>
    obtain ⟨item, -, h⟩ := bind_ok.mp h
    obtain ⟨path, -, h⟩ := bind_ok.mp h
    cases h
    rfl
  case configureMounts | writeBootFiles | updateNvram =>
    obtain ⟨path, -, h⟩ := bind_ok.mp h
    cases h
    rfl
  all_goals cases h

theorem manualWrite_action (h : manualWrite casing plan disk diskPath graph boot operation = .ok write) :
    write.action = operation.action := by
  unfold manualWrite at h
  simp only at h
  split at h
  · obtain ⟨partition, -, h⟩ := bind_ok.mp h
    cases h
    rfl
  · split at h
    · cases h
      rfl
    · exact creationWrite_action h

/-- The write of an operation on an existing partition names the partition and its new size. -/
theorem manualWrite_existing
    (haction : operation.action ∈
      [StorageGraphAction.preserve, .deletePartition, .resizePartition])
    (h : manualWrite casing plan disk diskPath graph boot operation = .ok write) :
    ∃ p ∈ disk.partitions, referenceOf disk p = operation.targetId ∧
      write.details = existingDetails p ++
        ((entry PartitionResizeDeclaration.targetReferenceId graph.partitionResizes
          operation.targetId).map resizeDetails).getD [] := by
  unfold manualWrite at h
  simp only [haction, if_true] at h
  obtain ⟨p, hp, h⟩ := bind_ok.mp h
  obtain ⟨hmem, href⟩ := existingTarget_some (keyed_ok.mp hp)
  cases h
  exact ⟨p, hmem, href, rfl⟩

theorem detail_partuuid {p : PartitionInventory} {rest : List (String × String)}
    (h : write.details = existingDetails p ++ rest) :
    write.detail "partuuid" = .ok (partuuidOf p) := by
  unfold StorageWriteOperation.detail
  rw [h]
  rfl

theorem detail_target {p : PartitionInventory} {resize : PartitionResizeDeclaration}
    (h : write.details = existingDetails p ++ resizeDetails resize) :
    write.detail "target_size_bytes" = .ok resize.targetSizeBytes.repr := by
  unfold StorageWriteOperation.detail
  rw [h]
  rfl

theorem mapM_each {α β : Type} {f : α → Except String β} {items : List α} {results : List β}
    (h : items.mapM f = .ok results) : ∀ item ∈ items, ∃ r, f item = .ok r := by
  induction items generalizing results with
  | nil => simp
  | cons first rest ih =>
    rw [List.mapM_cons] at h
    obtain ⟨b, hb, h⟩ := bind_ok.mp h
    obtain ⟨bs, hbs, h⟩ := bind_ok.mp h
    intro item hitem
    rcases List.mem_cons.mp hitem with rfl | hitem
    · exact ⟨b, hb⟩
    · exact ih hbs item hitem

variable {writeSet : StorageWriteSet} {action : StorageGraphAction}

/-- The writes of an action on existing partitions are those of the marked partitions. -/
theorem existingWrites_iff
    (hwrites : graph.operations.mapM (manualWrite casing plan disk diskPath graph boot) =
      .ok writeSet.operations)
    (haction : action ∈ [StorageGraphAction.preserve, .deletePartition, .resizePartition]) :
    (∀ w ∈ writesWith writeSet action, ∃ p ∈ disk.partitions,
      ⟨action, referenceOf disk p⟩ ∈ graph.operations ∧ w.details = existingDetails p ++
        ((entry PartitionResizeDeclaration.targetReferenceId graph.partitionResizes
          (referenceOf disk p)).map resizeDetails).getD []) ∧
    ∀ p ∈ disk.partitions, ⟨action, referenceOf disk p⟩ ∈ graph.operations →
      ∃ w ∈ writesWith writeSet action, ∃ q ∈ disk.partitions, partuuidOf q = partuuidOf p ∧
        w.details = existingDetails q ++
          ((entry PartitionResizeDeclaration.targetReferenceId graph.partitionResizes
            (referenceOf disk p)).map resizeDetails).getD [] := by
  constructor
  · intro w hw
    obtain ⟨hmem, hkind⟩ := List.mem_filter.mp hw
    obtain ⟨operation, hoperation, hwrite⟩ := (mapM_ok hwrites w).mp hmem
    have hsame : operation.action = action := by
      rw [← manualWrite_action hwrite]
      simpa using hkind
    obtain ⟨p, hp, href, hdetails⟩ := manualWrite_existing (hsame ▸ haction) hwrite
    refine ⟨p, hp, ?_, ?_⟩
    · rw [href, ← hsame]
      exact hoperation
    · rw [hdetails, href]
  · intro p _ hmarked
    obtain ⟨w, hwrite⟩ := mapM_each hwrites _ hmarked
    obtain ⟨q, hq, href, hdetails⟩ := manualWrite_existing haction hwrite
    refine ⟨w, List.mem_filter.mpr ⟨(mapM_ok hwrites w).mpr ⟨_, hmarked, hwrite⟩, ?_⟩, q, hq,
      referenceOf_inj.mp href, hdetails⟩
    simpa using manualWrite_action hwrite

theorem mem_partuuidsOf
    (hwrites : graph.operations.mapM (manualWrite casing plan disk diskPath graph boot) =
      .ok writeSet.operations)
    (haction : action ∈ [StorageGraphAction.preserve, .deletePartition, .resizePartition])
    {partuuids : List String} (h : partuuidsOf writeSet action = .ok partuuids)
    (partuuid : String) :
    partuuid ∈ partuuids ↔ ∃ p ∈ disk.partitions,
      ⟨action, referenceOf disk p⟩ ∈ graph.operations ∧ partuuidOf p = partuuid := by
  obtain ⟨hsound, hcomplete⟩ := existingWrites_iff hwrites haction
  unfold partuuidsOf at h
  rw [mapM_ok h]
  constructor
  · rintro ⟨w, hw, hdetail⟩
    obtain ⟨p, hp, hmarked, hdetails⟩ := hsound w hw
    rw [detail_partuuid hdetails] at hdetail
    exact ⟨p, hp, hmarked, Except.ok.inj hdetail⟩
  · rintro ⟨p, hp, hmarked, rfl⟩
    obtain ⟨w, hw, q, -, hsame, hdetails⟩ := hcomplete p hp hmarked
    exact ⟨w, hw, by rw [detail_partuuid hdetails, hsame]⟩

theorem resizeTarget_iff {p : PartitionInventory} {found : Option PartitionResizeDeclaration}
    {write : StorageWriteOperation} {resize : String × ℤ}
    (hdetails : write.details = existingDetails p ++ (found.map resizeDetails).getD []) :
    resizeTarget write = .ok resize ↔
      ∃ d, found = some d ∧ resize = (partuuidOf p, d.targetSizeBytes) := by
  unfold resizeTarget
  rw [detail_partuuid hdetails]
  cases found with
  | none =>
    have hmissing : write.detail "target_size_bytes" = .error "target_size_bytes" := by
      unfold StorageWriteOperation.detail
      rw [hdetails]
      rfl
    rw [hmissing]
    simp [bind, Except.bind]
  | some d =>
    rw [detail_target hdetails]
    simp only [bind, Except.bind, decimalNumber_repr, keyed, pure, Except.pure, Except.ok.injEq,
      Option.some.injEq, exists_eq_left']
    exact eq_comm

theorem mem_resizes
    (hwrites : graph.operations.mapM (manualWrite casing plan disk diskPath graph boot) =
      .ok writeSet.operations)
    {resizes : List (String × ℤ)}
    (h : (writesWith writeSet .resizePartition).mapM resizeTarget = .ok resizes)
    (resize : String × ℤ) :
    resize ∈ resizes ↔ ∃ p ∈ disk.partitions,
      ⟨.resizePartition, referenceOf disk p⟩ ∈ graph.operations ∧
        ∃ d, entry PartitionResizeDeclaration.targetReferenceId graph.partitionResizes
          (referenceOf disk p) = some d ∧ resize = (partuuidOf p, d.targetSizeBytes) := by
  have hresizes : StorageGraphAction.resizePartition ∈
      [StorageGraphAction.preserve, .deletePartition, .resizePartition] := by simp
  obtain ⟨hsound, hcomplete⟩ := existingWrites_iff hwrites hresizes
  rw [mapM_ok h]
  constructor
  · rintro ⟨w, hw, hresize⟩
    obtain ⟨p, hp, hmarked, hdetails⟩ := hsound w hw
    exact ⟨p, hp, hmarked, (resizeTarget_iff hdetails).mp hresize⟩
  · rintro ⟨p, hp, hmarked, d, hd, rfl⟩
    obtain ⟨w, hw, q, -, hsame, hdetails⟩ := hcomplete p hp hmarked
    refine ⟨w, hw, (resizeTarget_iff hdetails).mpr ⟨d, hd, ?_⟩⟩
    rw [hsame]

end Writes

end Installer
