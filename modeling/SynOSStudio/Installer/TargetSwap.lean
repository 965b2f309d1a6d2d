import SynOSStudio.Installer.SwapPolicy
import SynOSStudio.Installer.VerifiedResults
import SynOSStudio.TextLines.Lines

/-!
# The swap of the target

Which devices of a plan must not be an active swap when its table is written, and what one call
of `deactivate_target_swap` does about them.
-/

namespace Installer

open KeyedLists TextLines

section Commands

variable (casing : Casing) (plan : StoragePlan) (diskPath : String)

/-- The commands of a manual plan, as far as its swap devices are concerned. -/
structure ManualCommands where
  devices : List (String × String)
  deactivateSwapDevices : List String
  deriving DecidableEq

/-- The old swap partitions that do not survive. -/
def deactivateSwapDevices (disk : DiskInventory) (graph : StorageGraph) : List String :=
  (disk.partitions.filter fun item => casing.casefold item.filesystemType == "swap" &&
    (!(targets graph .replacePartitionTable).isEmpty ||
      existingPartitionReferenceId (diskId disk.stableId) item.identity.partuuid ∈
        targets graph .deletePartition)).map fun item => item.identity.path

/-- The dictionary `devices`, with a reused ESP in the last place. -/
def manualDevices (disk : DiskInventory) (graph : StorageGraph) (boot : BootTarget) :
    List (String × String) :=
  let created := graph.partitions.map fun part => (part.name, partitionPath diskPath part.number)
  match existingTarget disk boot.efiFilesystemId with
  | none => created
  | some esp => created ++ [("efi-system", esp.identity.path)]

def expectedDevices : List String :=
  ["efi-system", "root"] ++ if plan.swapSizeMib ≠ 0 then ["swap"] else []

def buildManualStorageCommands (inventory : StorageInventory) : Except String ManualCommands := do
  raiseIf (plan.mode != .manual) "Plan is not manual partitioning"
  let disk ← validateManualStorageGraph casing plan inventory
  let graph ← keyed "graph" plan.graph
  let boot ← firstBootTarget graph
  let devices := manualDevices diskPath disk graph boot
  raiseIf (!sameMembers (devices.map Prod.fst) (expectedDevices plan))
    "Manual graph did not resolve target devices"
  return ⟨devices, deactivateSwapDevices casing disk graph⟩

/-- The devices of an erased disk. -/
def eraseDiskDevices : List (String × String) :=
  (buildEraseDiskLayoutSpec plan.architecture plan.filesystem plan.espSizeMib
    plan.swapSizeMib).map fun part => (part.name, partitionPath diskPath part.number)

/-- `partition_devices` and, for a manual plan, the devices to be deactivated. -/
structure SwapContext where
  partitionDevices : List (String × String)
  manual : Option ManualCommands

def legacyNumber : ℤ := if plan.architecture = .amd64 then 3 else 2

/-- The set of candidates. -/
def swapCandidates (context : SwapContext) : List String :=
  (match entry Prod.fst context.partitionDevices "swap" with
    | none => []
    | some (_, device) => if device = "" then [] else [device]) ++
  (match context.manual with
    | none => []
    | some commands => commands.deactivateSwapDevices) ++
  if plan.mode = .eraseDisk then [partitionPath diskPath (legacyNumber plan)] else []

end Commands

section Deactivation

/-- A name as the raw listing has it, where all but visible ASCII is escaped. -/
structure SwapName where
  text : String
  nonempty : text ≠ ""
  visible : ∀ c ∈ text.toList, 33 ≤ c.toNat ∧ c.toNat ≤ 126
  deriving DecidableEq

/-- The tools and the links of the host. A command that fails changes nothing. -/
structure SwapHost where
  realpath : String → String
  swaponFails : Bool
  swapoffFails : String → Bool

variable (host : SwapHost) (active : List SwapName)

/-- `swapon --show=NAME --noheadings --raw` -/
def swaponOutput : Text :=
  active.flatMap fun name => name.text.toList ++ ['\n']

/-- `swapoff`, which takes the device out of the active ones. -/
def swapoff (device : String) : List SwapName :=
  active.filter fun name => host.realpath name.text ≠ host.realpath device

/-- The set `active` of the source. -/
def activeDevices (output : Text) : List String :=
  ((splitlines output).filter fun line => strip line ≠ []).map fun line =>
    host.realpath (String.ofList (strip line))

/-- One call, with the candidates in the order in which the set is visited. No device has an
empty path, so that the empty default of `next` stands for none. -/
def deactivateTargetSwap (strict : Bool) (candidates : List String) :
    Except String (Bool × List SwapName) :=
  if host.swaponFails then
    if strict then .error "Could not inspect active swap devices" else .ok (false, active)
  else
    match candidates.find? fun candidate =>
        host.realpath candidate ∈ activeDevices host (swaponOutput active) with
    | none => .ok (false, active)
    | some device =>
      if host.swapoffFails device then
        if strict then .error ("Could not deactivate target swap: " ++ device)
        else .ok (false, active)
      else .ok (true, swapoff host active device)

variable {host} {active}

theorem SwapName.not_space (name : SwapName) : ∀ c ∈ name.text.toList, isSpace c = false := by
  intro c hc
  have hvisible := name.visible c hc
  simp only [isSpace, Bool.or_eq_false_iff, Bool.and_eq_false_iff, decide_eq_false_iff_not,
    List.contains_eq_mem, List.mem_cons, List.not_mem_nil, or_false]
  omega

/-- The listing is read back as the devices that are active. -/
theorem mem_activeDevices {device : String} :
    device ∈ activeDevices host (swaponOutput active) ↔
      ∃ name ∈ active, host.realpath name.text = device := by
  have hlines : splitlines (swaponOutput active) = active.map fun name => name.text.toList := by
    rw [swaponOutput, ← List.flatMap_map (fun name : SwapName => name.text.toList)
      (fun line => line ++ ['\n'])]
    apply splitlines_flatMap
    intro line hline c hc
    obtain ⟨name, -, rfl⟩ := List.mem_map.mp hline
    have hspace := name.not_space c hc
    by_contra hbreak
    rw [isSpace_of_isLineBreak (by simpa using hbreak)] at hspace
    cases hspace
  simp only [activeDevices, hlines, List.mem_map, List.mem_filter, decide_eq_true_eq]
  constructor
  · rintro ⟨line, ⟨⟨name, hname, rfl⟩, -⟩, rfl⟩
    refine ⟨name, hname, ?_⟩
    rw [strip_of_plain name.not_space, String.ofList_toList]
  · rintro ⟨name, hname, rfl⟩
    refine ⟨name.text.toList, ⟨⟨name, hname, rfl⟩, ?_⟩, ?_⟩
    · rw [strip_of_plain name.not_space]
      simpa using name.nonempty
    · rw [strip_of_plain name.not_space, String.ofList_toList]

/-- The device behind the path is an active swap. -/
def IsActive (host : SwapHost) (active : List SwapName) (device : String) : Prop :=
  ∃ name ∈ active, host.realpath name.text = host.realpath device

/-- What one strict call that returns has done. -/
theorem deactivateTargetSwap_ok {visited : List String} {result : Bool} {after : List SwapName}
    (h : deactivateTargetSwap host active true visited = .ok (result, after)) :
    ((∀ device ∈ visited, ¬ IsActive host active device) ∧ after = active) ∨
      ∃ device ∈ visited, IsActive host active device ∧ after = swapoff host active device := by
  unfold deactivateTargetSwap at h
  split at h
  · cases h
  · split at h
    · rename_i hnone
      cases h
      left
      refine ⟨fun device hdevice hactive => ?_, rfl⟩
      have hmissing := List.find?_eq_none.mp hnone device hdevice
      rw [decide_eq_true_eq, mem_activeDevices] at hmissing
      exact hmissing hactive
    · rename_i device hfound
      split at h
      · cases h
      · cases h
        have hactive := List.find?_some hfound
        rw [decide_eq_true_eq, mem_activeDevices] at hactive
        exact Or.inr ⟨device, List.mem_of_find?_eq_some hfound, hactive, rfl⟩

theorem isActive_swapoff {device other : String} :
    IsActive host (swapoff host active device) other ↔
      IsActive host active other ∧ host.realpath other ≠ host.realpath device := by
  simp only [IsActive, swapoff, List.mem_filter, decide_eq_true_eq]
  constructor
  · rintro ⟨name, ⟨hname, hkept⟩, heq⟩
    exact ⟨⟨name, hname, heq⟩, heq ▸ hkept⟩
  · rintro ⟨⟨name, hname, heq⟩, hother⟩
    exact ⟨name, ⟨hname, heq ▸ hother⟩, heq⟩

/-- No candidate is active afterwards, and what was disabled is a candidate. -/
def Deactivated (host : SwapHost) (candidates : List String) (before after : List SwapName) : Prop :=
  (∀ device ∈ candidates, ¬ IsActive host after device) ∧
    ∀ name ∈ before, name ∉ after → ∃ device ∈ candidates,
      host.realpath name.text = host.realpath device

/-- The candidates that are active are one device. -/
def OneActive (host : SwapHost) (candidates : List String) (active : List SwapName) : Prop :=
  ∀ device ∈ candidates, ∀ other ∈ candidates, IsActive host active device →
    IsActive host active other → host.realpath device = host.realpath other

/-- A call that returns has deactivated the swap of the target if and only if at most one device
of the target was active. -/
theorem target_swap_deactivated_iff (host : SwapHost) (plan : StoragePlan) (diskPath : String)
    (context : SwapContext) (active after : List SwapName) (visited : List String) (result : Bool)
    (hvisited : ∀ device, device ∈ visited ↔ device ∈ swapCandidates plan diskPath context)
    (h : deactivateTargetSwap host active true visited = .ok (result, after)) :
    Deactivated host (swapCandidates plan diskPath context) active after ↔
      OneActive host (swapCandidates plan diskPath context) active := by
  simp only [Deactivated, OneActive, ← hvisited]
  rcases deactivateTargetSwap_ok h with ⟨hnone, rfl⟩ | ⟨device, hdevice, hactive, rfl⟩
  · constructor
    · intro _ device hdevice other _ hactive
      exact absurd hactive (hnone device hdevice)
    · intro _
      exact ⟨hnone, fun name hname hgone => absurd hname hgone⟩
  · constructor
    · rintro ⟨hdone, -⟩ first hfirst second hsecond hfirstActive hsecondActive
      have hsame (other : String) (hother : other ∈ visited) (hon : IsActive host active other) :
          host.realpath other = host.realpath device := by
        by_contra hne
        exact hdone other hother (isActive_swapoff.mpr ⟨hon, hne⟩)
      rw [hsame first hfirst hfirstActive, hsame second hsecond hsecondActive]
    · intro hone
      refine ⟨fun other hother hon => ?_, fun name hname hgone => ⟨device, hdevice, ?_⟩⟩
      · obtain ⟨hbefore, hne⟩ := isActive_swapoff.mp hon
        exact hne (hone other hother device hdevice hbefore hactive)
      · by_contra hne
        exact hgone (List.mem_filter.mpr ⟨hname, by simpa using hne⟩)

end Deactivation

section EraseDisk

variable {plan : StoragePlan} {diskPath : String}

theorem eraseDisk_swap_number {part : PartitionSpec}
    (hpart : part ∈ buildEraseDiskLayoutSpec plan.architecture plan.filesystem plan.espSizeMib
      plan.swapSizeMib) (hname : part.name = "swap") : part.number = legacyNumber plan := by
  simp only [buildEraseDiskLayoutSpec, List.mem_append, List.mem_singleton] at hpart
  rcases hpart with ((hbios | rfl) | hswap) | rfl
  · unfold biosBoot at hbios
    split at hbios
    · rw [List.mem_singleton.mp hbios] at hname
      simp at hname
    · cases hbios
  · simp at hname
  · split at hswap
    · rw [List.mem_singleton.mp hswap]
      unfold biosBoot legacyNumber
      split_ifs <;> rfl
    · cases hswap
  · simp at hname

/-- The swap of an erased disk has the legacy number: there is only one candidate. -/
theorem eraseDisk_candidates {device : String}
    (h : device ∈ swapCandidates plan diskPath ⟨eraseDiskDevices plan diskPath, none⟩) :
    device = partitionPath diskPath (legacyNumber plan) := by
  simp only [swapCandidates, List.append_nil, List.mem_append] at h
  rcases h with h | h
  · split at h
    · cases h
    · rename_i name found hentry
      split at h
      · cases h
      · rw [List.mem_singleton.mp h]
        obtain ⟨part, hpart, heq⟩ := List.mem_map.mp (entry_mem hentry)
        have hname : name = "swap" := entry_key hentry
        cases heq
        rw [eraseDisk_swap_number hpart hname]
  · split at h
    · exact List.mem_singleton.mp h
    · cases h

theorem eraseDisk_oneActive (host : SwapHost) (active : List SwapName) :
    OneActive host (swapCandidates plan diskPath ⟨eraseDiskDevices plan diskPath, none⟩) active := by
  intro device hdevice other hother _ _
  rw [eraseDisk_candidates hdevice, eraseDisk_candidates hother]

end EraseDisk

section Example

def swapPartition (number : ℕ) (startMib : ℤ) : PartitionInventory where
  identity := ⟨"/dev/sda" ++ toString number, number,
    "22222222-aaaa-4bbb-8ccc-00000000000" ++ toString number, startMib * MIB, 4096 * MIB⟩
  partitionType := "0657fd6d-a4ab-43c4-84e5-0933c84b4f4f"
  filesystemType := "swap"
  filesystemUuid := "0e9e2c6e-0d5f-4b0c-8f53-1a2b3c4d5e6" ++ toString number
  mountpoints := ["[SWAP]"]
  flags := ["swap"]

/-- A disk with two swap partitions, both of them active. -/
def twoSwapsDisk : DiskInventory :=
  sharedDisk [swapPartition 1 1, swapPartition 2 4097] []

def replacingLayout : ManualStorageSelection where
  diskStableId := "wwn-0x5000"
  diskSizeBytes := 64 * 1024 * MIB
  diskTopologyDigest := "0123456789abcdef0123456789abcdef0123456789abcdef0123456789abcdef"
  reinitializeGpt := true
  deletedPartuuids := []
  reusedEspPartuuid := ""
  filesystem := .ext4
  newPartitions := [⟨.efiSystem, 1, 1025⟩, ⟨.root, 1025, 60000⟩]
  resizedPartitions := []

/-- The plan that replaces the table of the disk. -/
def replacingPlan : StoragePlan :=
  shrinkingPlan (buildManualStorageGraph asciiCasing (shrinkingPlan none) twoSwapsDisk
    replacingLayout "fedcba9876543210fedcba9876543210fedcba9876543210fedcba9876543210").toOption

def sda (number : Fin 10) : SwapName where
  text := "/dev/sda" ++ toString number.val
  nonempty := by fin_cases number <;> decide
  visible := by fin_cases number <;> decide

def plainHost : SwapHost := ⟨id, false, fun _ => false⟩

def replacingCommands : ManualCommands where
  devices := [("efi-system", "/dev/sda1"), ("root", "/dev/sda2")]
  deactivateSwapDevices := ["/dev/sda1", "/dev/sda2"]

def replacingCandidates : List String :=
  swapCandidates replacingPlan "/dev/sda" ⟨replacingCommands.devices, some replacingCommands⟩

/-- One of two active swap partitions of a table that is replaced stays active. -/
theorem second_swap_stays_active :
    buildManualStorageCommands asciiCasing replacingPlan "/dev/sda" ⟨[twoSwapsDisk]⟩ =
      .ok replacingCommands ∧
    deactivateTargetSwap plainHost [sda 1, sda 2] true replacingCandidates =
      .ok (true, [sda 2]) ∧
    ¬ Deactivated plainHost replacingCandidates [sda 1, sda 2] [sda 2] := by
  refine ⟨by decide +kernel, by decide +kernel, fun hdone => ?_⟩
  exact hdone.1 "/dev/sda2" (by decide +kernel) ⟨sda 2, List.mem_singleton.mpr rfl, by decide⟩

theorem single_swap_is_deactivated :
    deactivateTargetSwap plainHost [sda 2] true replacingCandidates = .ok (true, []) ∧
      Deactivated plainHost replacingCandidates [sda 2] [] := by
  have hcall : deactivateTargetSwap plainHost [sda 2] true replacingCandidates =
      .ok (true, []) := by
    decide +kernel
  refine ⟨hcall, (target_swap_deactivated_iff plainHost replacingPlan "/dev/sda"
    ⟨replacingCommands.devices, some replacingCommands⟩ [sda 2] [] replacingCandidates true
    (fun _ => Iff.rfl) hcall).mpr ?_⟩
  rintro device - other - ⟨first, hfirst, hdevice⟩ ⟨second, hsecond, hother⟩
  rw [← hdevice, ← hother, List.mem_singleton.mp hfirst, List.mem_singleton.mp hsecond]

end Example

end Installer
