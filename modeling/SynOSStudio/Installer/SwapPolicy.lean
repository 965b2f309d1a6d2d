import SynOSStudio.Installer.GuidedGraph
import SynOSStudio.Installer.ManualGeometry

/-!
# Swap sizing

How large the disk swap of an installation may be. What the sizing offers leaves the root its
20 GiB in both automatic layouts, whatever the roundings of each of them.
-/

namespace Installer

def MAXIMUM_RUNTIME_SWAP_MIB : ℤ := 64 * 1024
def LAYOUT_OVERHEAD_MIB : ℤ := 4

structure SwapSizing where
  physicalMemoryBytes : ℤ
  installationSpaceBytes : ℤ
  diskBudgetMib : ℤ
  runtimeTargetMib : ℤ
  hibernationTargetMib : ℤ
  swapSizeMib : ℤ
  maximumCustomMib : ℤ
  hibernationCapacity : Bool
  deriving DecidableEq

section Policy

def ceilDiv (dividend divisor : ℤ) : ℤ := -(-dividend / divisor)

def ceilToGibMib (sizeBytes : ℤ) : ℤ := ceilDiv sizeBytes GIB * 1024

def runtimeTargetMib (physicalMemoryBytes : ℤ) : ℤ :=
  min MAXIMUM_RUNTIME_SWAP_MIB
    (max MINIMUM_DISK_SWAP_MIB (ceilToGibMib (ceilDiv physicalMemoryBytes 2)))

def hibernationTargetMib (physicalMemoryBytes : ℤ) : ℤ :=
  max MINIMUM_DISK_SWAP_MIB (ceilToGibMib physicalMemoryBytes + 1024)

def memoryCeilingMib (physicalMemoryBytes : ℤ) : ℤ :=
  max MINIMUM_DISK_SWAP_MIB (physicalMemoryBytes * 4 / GIB * 1024)

def reservedBytes (espSizeMib layoutOverheadMib : ℤ) : ℤ :=
  (MINIMUM_ROOT_MIB + espSizeMib + layoutOverheadMib) * MIB

def diskBudgetMib (installationSpaceBytes espSizeMib layoutOverheadMib : ℤ) : ℤ :=
  max 0 ((installationSpaceBytes - reservedBytes espSizeMib layoutOverheadMib) / GIB * 1024)

/-- Room for hibernation, or else the normal target. -/
def swapSizeFor (physicalMemoryBytes budgetMib : ℤ) : ℤ :=
  if hibernationTargetMib physicalMemoryBytes ≤ budgetMib then
    hibernationTargetMib physicalMemoryBytes
  else min (runtimeTargetMib physicalMemoryBytes) budgetMib

/-- What is returned when the budget holds the minimum. -/
def swapSizing (physicalMemoryBytes installationSpaceBytes budgetMib : ℤ) : SwapSizing where
  physicalMemoryBytes := physicalMemoryBytes
  installationSpaceBytes := installationSpaceBytes
  diskBudgetMib := budgetMib
  runtimeTargetMib := runtimeTargetMib physicalMemoryBytes
  hibernationTargetMib := hibernationTargetMib physicalMemoryBytes
  swapSizeMib := swapSizeFor physicalMemoryBytes budgetMib
  maximumCustomMib := min budgetMib (memoryCeilingMib physicalMemoryBytes)
  hibernationCapacity := hibernationTargetMib physicalMemoryBytes ≤ budgetMib

/-- The swap for one installation area, with an ESP of that size in it. -/
def calculateSwapSizing (physicalMemoryBytes installationSpaceBytes espSizeMib : ℤ)
    (layoutOverheadMib : ℤ := LAYOUT_OVERHEAD_MIB) : Except String SwapSizing := do
  raiseIf (physicalMemoryBytes ≤ 0) "Physical memory must be a positive integer number of bytes"
  raiseIf (installationSpaceBytes ≤ 0)
    "Installation space must be a positive integer number of bytes"
  raiseIf (espSizeMib < 0) "ESP size must be a non-negative integer MiB value"
  raiseIf (layoutOverheadMib < 0) "Layout overhead must be a non-negative integer MiB value"
  let budgetMib := diskBudgetMib installationSpaceBytes espSizeMib layoutOverheadMib
  let minimumBytes := reservedBytes espSizeMib layoutOverheadMib + MINIMUM_DISK_SWAP_MIB * MIB
  raiseIf (budgetMib < MINIMUM_DISK_SWAP_MIB)
    s!"Installation space cannot provide 2 GiB swap while leaving 20 GiB for root; at least {minimumBytes} bytes are required"
  return swapSizing physicalMemoryBytes installationSpaceBytes budgetMib

/-- Zero stands for no disk swap. -/
def validateDiskSwapSelection (swapSizeMib : ℤ) (sizing : SwapSizing) : Except String Unit := do
  raiseIf (swapSizeMib < 0 || swapSizeMib % 1024 != 0)
    "Disk swap must be zero or a non-negative whole-GiB value"
  raiseIf (sizing.maximumCustomMib < swapSizeMib)
    s!"Disk swap exceeds the safe maximum of {sizing.maximumCustomMib / 1024} GiB for the current memory and installation space"

def sliderStep (value : ℤ) : ℤ :=
  if value < 16 then 1
  else if value < 32 then 2
  else if value < 64 then 4
  else if value < 128 then 8
  else 16

theorem sliderStep_pos (value : ℤ) : 0 < sliderStep value := by
  unfold sliderStep
  split_ifs <;> omega

/-- The loop over the values of the slider. -/
def sliderValues (maximumGib value : ℤ) : List ℤ :=
  if value ≤ maximumGib then value :: sliderValues maximumGib (value + sliderStep value) else []
termination_by (maximumGib + 1 - value).toNat
decreasing_by
  have := sliderStep_pos value
  omega

/-- The set of values, sorted. -/
def diskSwapChoicesMib (sizing : SwapSizing) : List ℤ :=
  let maximumGib := sizing.maximumCustomMib / 1024
  let targets := [sizing.runtimeTargetMib, sizing.hibernationTargetMib, sizing.swapSizeMib].filter
    fun target => target ≤ sizing.maximumCustomMib
  let values := [0, maximumGib] ++ sliderValues maximumGib 1 ++ targets.map (· / 1024)
  (values.dedup.insertionSort (· ≤ ·)).map (· * 1024)

end Policy

section EraseDisk

def MINIMUM_DISK_BYTES : ℤ := 24 * GIB
def MINIMUM_ROOT_BYTES : ℤ := MINIMUM_ROOT_MIB * MIB
def BIOS_GRUB_SIZE_MIB : ℤ := 2
def ALIGNMENT_MIB : ℤ := 1

/-- The checks of `validate_plan` on the sizes and the filesystem, in their order. -/
def storageConditions (plan : StoragePlan) : List (Bool × String) :=
  [(plan.diskSizeBytes < MINIMUM_DISK_BYTES, "Target disk must be at least 24 GiB"),
    (plan.mode == .eraseDisk &&
      plan.diskSizeBytes - (plan.espSizeMib + plan.swapSizeMib + 4) * MIB < MINIMUM_ROOT_BYTES,
      "Partition layout leaves less than 20 GiB for root"),
    (plan.mode != .manual && plan.filesystem ∉ [Filesystem.btrfs, .ext4],
      "XFS and F2FS root filesystems require Advanced manual mode"),
    (plan.espSizeMib < 512, "EFI System Partition must be at least 512 MiB"),
    (plan.swapSizeMib < 0, "Disk swap must use a non-negative MiB size"),
    (0 ≤ plan.swapSizeMib && plan.mode != .manual && plan.swapSizeMib % 1024 != 0,
      "Automatic disk swap must use non-negative whole-GiB sizing")]

def storageErrors (plan : StoragePlan) : List String :=
  ((storageConditions plan).filter Prod.fst).map Prod.snd

structure PartitionSpec where
  number : ℤ
  name : String
  startMib : ℤ
  endMib : Option ℤ
  filesystem : Option String
  mountPoint : Option String
  flags : List String
  deriving DecidableEq

def biosBoot (architecture : Architecture) : List PartitionSpec :=
  if architecture = .amd64 then
    [⟨1, "bios-boot", ALIGNMENT_MIB, some (ALIGNMENT_MIB + BIOS_GRUB_SIZE_MIB), none, none,
      ["bios_grub"]⟩]
  else []

/-- The partitions of an erased disk. The root takes what is left. -/
def buildEraseDiskLayoutSpec (architecture : Architecture) (filesystem : Filesystem)
    (espSizeMib swapSizeMib : ℤ) : List PartitionSpec :=
  let start := ALIGNMENT_MIB + if architecture = .amd64 then BIOS_GRUB_SIZE_MIB else 0
  let esp : List PartitionSpec := [⟨(biosBoot architecture).length + 1, "efi-system", start,
    some (start + espSizeMib), some "fat32", some "/boot/efi", ["esp"]⟩]
  let parts := biosBoot architecture ++ esp
  let afterEsp := start + espSizeMib
  let swap : List PartitionSpec :=
    if swapSizeMib ≠ 0 then
      [⟨parts.length + 1, "swap", afterEsp, some (afterEsp + swapSizeMib), some "linux-swap",
        none, ["swap"]⟩]
    else []
  let parts := parts ++ swap
  parts ++ [⟨parts.length + 1, "root", afterEsp + swapSizeMib, none, some filesystem.value,
    some "/", []⟩]

end EraseDisk

section Sizing

variable {memory space esp size : ℤ} {sizing : SwapSizing}

theorem calculateSwapSizing_ok : calculateSwapSizing memory space esp = .ok sizing ↔
    (0 < memory ∧ 0 < space ∧ 0 ≤ esp ∧
      MINIMUM_DISK_SWAP_MIB ≤ diskBudgetMib space esp LAYOUT_OVERHEAD_MIB) ∧
      swapSizing memory space (diskBudgetMib space esp LAYOUT_OVERHEAD_MIB) = sizing := by
  unfold calculateSwapSizing
  simp only [raiseIf_then_ok, decide_eq_false_iff_not, not_le, not_lt, pure, Except.pure,
    Except.ok.injEq, and_assoc]
  have hoverhead : 0 ≤ LAYOUT_OVERHEAD_MIB := by decide
  simp only [hoverhead, true_and]

/-- The budget is the space beside the root, the ESP and the overhead, in whole GiB. -/
theorem minimum_le_budget_iff :
    MINIMUM_DISK_SWAP_MIB ≤ diskBudgetMib space esp LAYOUT_OVERHEAD_MIB ↔
      2 * GIB ≤ space - (MINIMUM_ROOT_MIB + esp + LAYOUT_OVERHEAD_MIB) * MIB := by
  simp only [diskBudgetMib, reservedBytes, MINIMUM_DISK_SWAP_MIB, GIB, MIB]
  omega

theorem calculateSwapSizing_error_iff (hmemory : 0 < memory) (hspace : 0 < space)
    (hesp : 0 ≤ esp) :
    (∃ message, calculateSwapSizing memory space esp = .error message) ↔
      space - (MINIMUM_ROOT_MIB + esp + LAYOUT_OVERHEAD_MIB) * MIB < 2 * GIB := by
  rw [← not_le, ← minimum_le_budget_iff]
  constructor
  · rintro ⟨message, herror⟩ hbudget
    have hok := calculateSwapSizing_ok.mpr ⟨⟨hmemory, hspace, hesp, hbudget⟩, rfl⟩
    rw [herror] at hok
    cases hok
  · intro hsmall
    cases hresult : calculateSwapSizing memory space esp with
    | error message => exact ⟨message, rfl⟩
    | ok sizing => exact absurd (calculateSwapSizing_ok.mp hresult).1.2.2.2 hsmall

/-- The figures of a sizing are whole GiB, and the swap lies between 2 GiB and the maximum. -/
structure SwapSizing.Viable (sizing : SwapSizing) : Prop where
  runtime : 1024 ∣ sizing.runtimeTargetMib
  hibernation : 1024 ∣ sizing.hibernationTargetMib
  whole : 1024 ∣ sizing.swapSizeMib
  maximum : 1024 ∣ sizing.maximumCustomMib
  runtimeLeast : MINIMUM_DISK_SWAP_MIB ≤ sizing.runtimeTargetMib
  hibernationLeast : MINIMUM_DISK_SWAP_MIB ≤ sizing.hibernationTargetMib
  least : MINIMUM_DISK_SWAP_MIB ≤ sizing.swapSizeMib
  most : sizing.swapSizeMib ≤ sizing.maximumCustomMib
  budget : sizing.maximumCustomMib ≤ sizing.diskBudgetMib

theorem ceilToGibMib_spec (bytes : ℤ) : 1024 ∣ ceilToGibMib bytes ∧
    bytes * 1024 ≤ ceilToGibMib bytes * GIB ∧ ceilToGibMib bytes * GIB < (bytes + GIB) * 1024 := by
  simp only [ceilToGibMib, ceilDiv, GIB, MIB]
  omega

/-- Four times the memory is never less than the memory rounded up and one GiB more. -/
theorem hibernationTargetMib_le (hmemory : 0 < memory) :
    hibernationTargetMib memory ≤ memoryCeilingMib memory := by
  simp only [hibernationTargetMib, memoryCeilingMib, ceilToGibMib, ceilDiv, GIB, MIB,
    MINIMUM_DISK_SWAP_MIB]
  omega

theorem runtimeTargetMib_le (hmemory : 0 < memory) :
    runtimeTargetMib memory ≤ memoryCeilingMib memory := by
  simp only [runtimeTargetMib, memoryCeilingMib, ceilToGibMib, ceilDiv, GIB, MIB,
    MINIMUM_DISK_SWAP_MIB, MAXIMUM_RUNTIME_SWAP_MIB]
  omega

theorem viable_of_calculated (h : calculateSwapSizing memory space esp = .ok sizing) :
    sizing.Viable := by
  obtain ⟨⟨hmemory, -, -, hbudget⟩, rfl⟩ := calculateSwapSizing_ok.mp h
  have hhibernation := hibernationTargetMib_le hmemory
  have hruntime := runtimeTargetMib_le hmemory
  have hwhole : 1024 ∣ hibernationTargetMib memory := by
    have := (ceilToGibMib_spec memory).1
    simp only [hibernationTargetMib, MINIMUM_DISK_SWAP_MIB]
    omega
  have hwhole' : 1024 ∣ runtimeTargetMib memory := by
    have := (ceilToGibMib_spec (ceilDiv memory 2)).1
    simp only [runtimeTargetMib, MINIMUM_DISK_SWAP_MIB, MAXIMUM_RUNTIME_SWAP_MIB]
    omega
  have hceiling : 1024 ∣ memoryCeilingMib memory := by
    simp only [memoryCeilingMib, MINIMUM_DISK_SWAP_MIB]
    omega
  have hbudget' : 1024 ∣ diskBudgetMib space esp LAYOUT_OVERHEAD_MIB := by
    simp only [diskBudgetMib]
    omega
  have hleast : MINIMUM_DISK_SWAP_MIB ≤ hibernationTargetMib memory := le_max_left _ _
  have hleast' : MINIMUM_DISK_SWAP_MIB ≤ runtimeTargetMib memory :=
    le_min (by decide) (le_max_left _ _)
  have hswap : 1024 ∣ swapSizeFor memory (diskBudgetMib space esp LAYOUT_OVERHEAD_MIB) ∧
      MINIMUM_DISK_SWAP_MIB ≤ swapSizeFor memory (diskBudgetMib space esp LAYOUT_OVERHEAD_MIB) ∧
      swapSizeFor memory (diskBudgetMib space esp LAYOUT_OVERHEAD_MIB) ≤
        min (diskBudgetMib space esp LAYOUT_OVERHEAD_MIB) (memoryCeilingMib memory) := by
    unfold swapSizeFor
    split_ifs with hcapacity
    · exact ⟨hwhole, hleast, le_min hcapacity hhibernation⟩
    · omega
  refine ⟨hwhole', hwhole, hswap.1, ?_, hleast', hleast, hswap.2.1, hswap.2.2, min_le_left _ _⟩
  simp only [swapSizing]
  omega

theorem mem_sliderValues {maximum value v : ℤ} (h : v ∈ sliderValues maximum value) :
    value ≤ v ∧ v ≤ maximum := by
  induction value using sliderValues.induct maximum with
  | case1 value hle ih =>
    rw [sliderValues, if_pos hle] at h
    rcases List.mem_cons.mp h with rfl | h
    · exact ⟨le_rfl, hle⟩
    · have hstep := sliderStep_pos value
      have hrest := ih h
      omega
  | case2 value hgt =>
    rw [sliderValues, if_neg hgt] at h
    cases h

/-- A choice is a whole number of GiB up to the maximum. -/
theorem SwapSizing.Viable.choice (h : sizing.Viable) (hsize : size ∈ diskSwapChoicesMib sizing) :
    0 ≤ size ∧ 1024 ∣ size ∧ size ≤ sizing.maximumCustomMib := by
  obtain ⟨hruntime, hhibernation, hwhole, hmaximum, hruntimeLeast, hhibernationLeast, hleast,
    hmost, -⟩ := h
  simp only [MINIMUM_DISK_SWAP_MIB] at hruntimeLeast hhibernationLeast hleast
  simp only [diskSwapChoicesMib, List.mem_map, List.mem_insertionSort, List.mem_dedup,
    List.mem_append, List.mem_cons, List.not_mem_nil, or_false, List.mem_filter,
    decide_eq_true_eq] at hsize
  obtain ⟨v, ((rfl | rfl) | hslider) | ⟨target, ⟨htarget, hle⟩, rfl⟩, rfl⟩ := hsize
  · omega
  · omega
  · have hv := mem_sliderValues hslider
    omega
  · rcases htarget with rfl | rfl | rfl <;> omega

theorem SwapSizing.Viable.validates (h : sizing.Viable) (hsize : size ∈ diskSwapChoicesMib sizing) :
    validateDiskSwapSelection size sizing = .ok () := by
  obtain ⟨hnonneg, hwhole, hmost⟩ := h.choice hsize
  simp only [validateDiskSwapSelection, raiseIf_then_ok, raiseIf_ok, Bool.or_eq_false_iff,
    decide_eq_false_iff_not, bne_eq_false_iff_eq]
  omega

/-- The space holds a choice beside the root, the ESP and the overhead. -/
theorem choice_fits (h : calculateSwapSizing memory space esp = .ok sizing)
    (hsize : size ∈ diskSwapChoicesMib sizing) :
    0 ≤ size ∧ (MINIMUM_ROOT_MIB + esp + LAYOUT_OVERHEAD_MIB + size) * MIB ≤ space := by
  have hviable := viable_of_calculated h
  obtain ⟨hnonneg, -, hmost⟩ := hviable.choice hsize
  have hbudget := hviable.budget
  obtain ⟨⟨-, -, -, hleast⟩, rfl⟩ := calculateSwapSizing_ok.mp h
  simp only [swapSizing, diskBudgetMib, reservedBytes, MINIMUM_DISK_SWAP_MIB, GIB, MIB]
    at hleast hmost hbudget
  refine ⟨hnonneg, ?_⟩
  simp only [MIB]
  omega

end Sizing

section Layouts

variable {plan : StoragePlan} {space esp : ℤ}

theorem mem_storageErrors {message : String} :
    message ∈ storageErrors plan ↔ (true, message) ∈ storageConditions plan := by
  simp [storageErrors]

theorem eraseDisk_leaves_root
    (hfits : (MINIMUM_ROOT_MIB + plan.espSizeMib + LAYOUT_OVERHEAD_MIB + plan.swapSizeMib) * MIB ≤
      plan.diskSizeBytes) :
    "Partition layout leaves less than 20 GiB for root" ∉ storageErrors plan := by
  have hroot : ¬ plan.diskSizeBytes - (plan.espSizeMib + plan.swapSizeMib + 4) * MIB <
      MINIMUM_ROOT_BYTES := by
    simp only [LAYOUT_OVERHEAD_MIB, MINIMUM_ROOT_BYTES, MIB] at hfits ⊢
    omega
  rw [mem_storageErrors]
  simp [storageConditions, hroot]

/-- The root of an erased disk ends before the last MiB, which the copy of the table takes. -/
theorem eraseDisk_root_size (architecture : Architecture) (filesystem : Filesystem)
    {esp swap : ℤ}
    (hfits : (MINIMUM_ROOT_MIB + esp + LAYOUT_OVERHEAD_MIB + swap) * MIB ≤ space) :
    ∃ root ∈ buildEraseDiskLayoutSpec architecture filesystem esp swap, root.name = "root" ∧
      root.endMib = none ∧ MINIMUM_ROOT_BYTES ≤ space - (root.startMib + ALIGNMENT_MIB) * MIB := by
  refine ⟨_, List.mem_append_right _ (List.mem_singleton.mpr rfl), rfl, rfl, ?_⟩
  simp only [LAYOUT_OVERHEAD_MIB, MINIMUM_ROOT_BYTES, ALIGNMENT_MIB, BIOS_GRUB_SIZE_MIB, MIB]
    at hfits ⊢
  split_ifs <;> omega

variable {extentId : FreeExtent → String} {casing : Casing} {disk : DiskInventory}
  {extent : FreeExtent} {reusedEsp : Option PartitionInventory}

/-- The partitions in front of the root. -/
def frontSizes (plan : StoragePlan) (reusedEsp : Option PartitionInventory) : ℤ :=
  (if reusedEsp.isNone then plan.espSizeMib else 0) + plan.swapSizeMib

/-- The root is the last of the new partitions: it has what the others leave. -/
theorem find_root {endMib : ℤ} {names : List ManualPartitionRole} {numbers : List ℤ} {number : ℤ}
    (hnames : ∀ role ∈ names, role ≠ .root) (hlength : numbers.length = names.length)
    (cursor : ℤ) : ∃ root,
      (declareFrom extentId plan disk extent endMib cursor
        ((names ++ [ManualPartitionRole.root]).zip (numbers ++ [number]))).find?
          (fun item => item.name == ManualPartitionRole.root.value) = some root ∧
      root.endMib = some endMib ∧ root.startMib = cursor +
        (names.map fun role =>
          if role = .efiSystem then plan.espSizeMib else plan.swapSizeMib).sum := by
  induction names generalizing numbers cursor with
  | nil =>
    rw [List.length_nil, List.length_eq_zero_iff] at hlength
    subst hlength
    exact ⟨_, by simp [declareFrom]; rfl, rfl, by simp⟩
  | cons role names ih =>
    cases numbers with
    | nil => cases hlength
    | cons first numbers =>
      have hrest := fun role hrole => hnames role (List.mem_cons_of_mem _ hrole)
      have hlength' : numbers.length = names.length := by simpa using hlength
      cases role with
      | root => exact absurd rfl (hnames _ List.mem_cons_self)
      | efiSystem =>
        obtain ⟨root, hfound, hend, hstart⟩ := ih hrest hlength' (cursor + plan.espSizeMib)
        refine ⟨root, ?_, hend, ?_⟩
        · rw [← hfound]
          simp [declareFrom, ManualPartitionRole.value]
        · rw [hstart, List.map_cons, List.sum_cons, if_pos rfl, add_assoc]
      | swap =>
        obtain ⟨root, hfound, hend, hstart⟩ := ih hrest hlength' (cursor + plan.swapSizeMib)
        refine ⟨root, ?_, hend, ?_⟩
        · rw [← hfound]
          simp [declareFrom, ManualPartitionRole.value]
        · rw [hstart, List.map_cons, List.sum_cons, if_neg (by decide), add_assoc]

theorem rootTooSmall_guided :
    rootTooSmall (guidedPartitions extentId plan disk extent reusedEsp) =
      decide (((extent.startBytes + extent.sizeBytes) / MIB -
        ((extent.startBytes + MIB - 1) / MIB + frontSizes plan reusedEsp)) * MIB <
          GUIDED_ROOT_MINIMUM_BYTES) := by
  let names : List ManualPartitionRole := (if reusedEsp.isNone then [.efiSystem] else []) ++
    (if plan.swapSizeMib ≠ 0 then [.swap] else [])
  have hnames : guidedNames plan reusedEsp = names ++ [.root] := rfl
  have hcount : (guidedNumbers plan disk reusedEsp).length = names.length + 1 := by
    rw [guidedNumbers, nextPartitionNumbers_length, hnames, List.length_append]
    rfl
  obtain ⟨numbers, number, hnumbers⟩ : ∃ numbers number,
      guidedNumbers plan disk reusedEsp = numbers ++ [number] := by
    rcases List.eq_nil_or_concat (guidedNumbers plan disk reusedEsp) with hnil | hconcat
    · rw [hnil] at hcount
      cases hcount
    · simpa using hconcat
  have hlength : numbers.length = names.length := by
    rw [hnumbers] at hcount
    simpa using hcount
  have hfront : ∀ role ∈ names, role ≠ .root := by
    intro role hrole
    simp only [names, List.mem_append] at hrole
    rcases hrole with hrole | hrole <;> split_ifs at hrole <;> simp_all
  have hsum : (names.map fun role =>
      if role = .efiSystem then plan.espSizeMib else plan.swapSizeMib).sum =
        frontSizes plan reusedEsp := by
    simp only [names, frontSizes]
    split_ifs <;> simp_all
  obtain ⟨root, hfound, hend, hstart⟩ := @find_root plan extentId disk extent
    ((extent.startBytes + extent.sizeBytes) / MIB) names numbers number hfront hlength
    ((extent.startBytes + MIB - 1) / MIB)
  rw [hsum] at hstart
  rw [rootTooSmall, guidedPartitions, hnames, hnumbers, hfound]
  simp only [hend, hstart]

/-- Whole MiB of an extent leave out less than one MiB at each end. -/
theorem guided_root_fits
    (hfits : (MINIMUM_ROOT_MIB + frontSizes plan reusedEsp + LAYOUT_OVERHEAD_MIB) * MIB ≤
      extent.sizeBytes) :
    rootTooSmall (guidedPartitions extentId plan disk extent reusedEsp) = false := by
  rw [rootTooSmall_guided, decide_eq_false_iff_not]
  simp only [LAYOUT_OVERHEAD_MIB, GUIDED_ROOT_MINIMUM_BYTES, MIB] at hfits ⊢
  omega

theorem bind_ne_error {α β : Type} {x : Except String α} {f : α → Except String β}
    {message : String} (hx : x ≠ .error message) (hf : ∀ a, f a ≠ .error message) :
    (x >>= f) ≠ .error message := by
  cases x with
  | error other => simpa [bind, Except.bind] using hx
  | ok a => exact hf a

theorem raiseIf_ne_error {condition : Bool} {other message : String} (h : other ≠ message) :
    raiseIf condition other ≠ .error message := by
  unfold raiseIf
  cases condition <;> simp [h]

theorem keyed_ne_error {α : Type} {key message : String} {value : Option α} (h : key ≠ message) :
    keyed key value ≠ .error message := by
  cases value <;> simp [keyed, h]

theorem rootMounts_ne_error (rootId espId message : String) :
    rootMounts plan rootId espId ≠ .error message := by
  simp only [rootMounts, rootSubvolumes, BTRFS_SUBVOLUMES]
  split_ifs <;>
    simp [mountRoleAt, bind, Except.bind, pure, Except.pure]

/-- The refusals for other reasons have other messages. -/
theorem guided_leaves_root {inventoryDigest : String}
    (hfits : (MINIMUM_ROOT_MIB + frontSizes plan reusedEsp + LAYOUT_OVERHEAD_MIB) * MIB ≤
      extent.sizeBytes) :
    buildGuidedCoexistenceStorageGraph extentId casing plan disk extent reusedEsp inventoryDigest ≠
      .error "Selected free extent leaves less than 20 GiB for root" := by
  unfold buildGuidedCoexistenceStorageGraph
  rw [guided_root_fits hfits]
  apply bind_ne_error (raiseIf_ne_error (by decide))
  intro _
  apply bind_ne_error (raiseIf_ne_error (by decide))
  intro _
  apply bind_ne_error (raiseIf_ne_error (by decide))
  intro _
  split
  · simp [bind, Except.bind]
  · rename_i candidate _
    apply bind_ne_error (raiseIf_ne_error (by decide))
    intro _
    apply bind_ne_error (raiseIf_ne_error (by decide))
    intro _
    apply bind_ne_error (by simp [raiseIf])
    intro _
    apply bind_ne_error
    · unfold guidedEspId
      split
      · simp
      · exact keyed_ne_error (by decide)
    · intro espId
      apply bind_ne_error (keyed_ne_error (by decide))
      intro rootId
      apply bind_ne_error (rootMounts_ne_error rootId espId _)
      intro mounts
      simp [pure, Except.pure]

end Layouts

section Viability

variable (memory space esp : ℤ)

/-- A candidate holds the minimum swap, with the ESP of one GiB or with one that is reused. -/
theorem candidate_sizing_ok {casing : Casing} {disk : DiskInventory} {firmware : Firmware}
    {candidate : FreeSpaceCandidate} (hmemory : 0 < memory)
    (h : candidate ∈ (analyzeGuidedCoexistence casing disk firmware).freeSpaceCandidates) :
    ∃ sizing, calculateSwapSizing memory candidate.extent.sizeBytes
      (if candidate.requiresReusedEsp then 0 else 1024) = .ok sizing := by
  simp only [analyzeGuidedCoexistence, freeSpaceCandidates, List.mem_insertionSort,
    List.mem_filterMap] at h
  obtain ⟨extent, -, hoffered⟩ := h
  refine ⟨_, calculateSwapSizing_ok.mpr ⟨⟨hmemory, ?_⟩, rfl⟩⟩
  rw [minimum_le_budget_iff]
  simp only [freeSpaceCandidate] at hoffered
  split at hoffered
  · rename_i hnew
    cases hoffered
    simp only [GUIDED_ROOT_MINIMUM_BYTES, GUIDED_MINIMUM_SWAP_BYTES, GUIDED_ESP_BYTES,
      GUIDED_ALIGNMENT_RESERVE_BYTES, MINIMUM_ROOT_MIB, MINIMUM_DISK_SWAP_MIB, MIB] at hnew
    simp only [MINIMUM_ROOT_MIB, LAYOUT_OVERHEAD_MIB, GIB, MIB, Bool.false_eq_true, if_false]
    omega
  · split at hoffered
    · rename_i hreused
      cases hoffered
      simp only [Bool.and_eq_true, decide_eq_true_eq] at hreused
      simp only [GUIDED_ROOT_MINIMUM_BYTES, GUIDED_MINIMUM_SWAP_BYTES,
        GUIDED_ALIGNMENT_RESERVE_BYTES, MINIMUM_ROOT_MIB, MINIMUM_DISK_SWAP_MIB, MIB] at hreused
      simp only [MINIMUM_ROOT_MIB, LAYOUT_OVERHEAD_MIB, GIB, MIB, if_true]
      omega
    · cases hoffered

/-- The sizing fails only where 2 GiB do not fit, and all that it offers is accepted and leaves
both automatic layouts their root. -/
theorem swap_sizing_leaves_a_viable_layout (hmemory : 0 < memory) (hspace : 0 < space)
    (hesp : 0 ≤ esp) :
    ((∃ message, calculateSwapSizing memory space esp = .error message) ↔
      space - (MINIMUM_ROOT_MIB + esp + LAYOUT_OVERHEAD_MIB) * MIB < 2 * GIB) ∧
    ∀ sizing, calculateSwapSizing memory space esp = .ok sizing →
      1024 ∣ sizing.swapSizeMib ∧ MINIMUM_DISK_SWAP_MIB ≤ sizing.swapSizeMib ∧
      sizing.swapSizeMib ≤ sizing.maximumCustomMib ∧
      sizing.maximumCustomMib ≤ sizing.diskBudgetMib ∧
      ∀ size ∈ diskSwapChoicesMib sizing, validateDiskSwapSelection size sizing = .ok () ∧
        (∀ plan : StoragePlan, plan.diskSizeBytes = space → plan.espSizeMib = esp →
          plan.swapSizeMib = size →
          "Partition layout leaves less than 20 GiB for root" ∉ storageErrors plan) ∧
        ∀ extentId casing (plan : StoragePlan) disk (candidate : FreeSpaceCandidate) reusedEsp
            inventoryDigest,
          candidate ∈ (analyzeGuidedCoexistence casing disk plan.firmware).freeSpaceCandidates →
          candidate.extent.sizeBytes = space →
          esp = (if reusedEsp.isSome then 0 else plan.espSizeMib) → plan.swapSizeMib = size →
          buildGuidedCoexistenceStorageGraph extentId casing plan disk candidate.extent reusedEsp
            inventoryDigest ≠ .error "Selected free extent leaves less than 20 GiB for root" := by
  refine ⟨calculateSwapSizing_error_iff hmemory hspace hesp, fun sizing hsizing => ?_⟩
  have hviable := viable_of_calculated hsizing
  refine ⟨hviable.whole, hviable.least, hviable.most, hviable.budget, fun size hsize => ?_⟩
  obtain ⟨hnonneg, hfits⟩ := choice_fits hsizing hsize
  refine ⟨hviable.validates hsize, ?_, ?_⟩
  · rintro plan rfl rfl rfl
    exact eraseDisk_leaves_root hfits
  · rintro extentId casing plan disk candidate reusedEsp digest - rfl rfl rfl
    apply guided_leaves_root
    have hfront : frontSizes plan reusedEsp =
        (if reusedEsp.isSome then 0 else plan.espSizeMib) + plan.swapSizeMib := by
      unfold frontSizes
      cases reusedEsp <;> simp
    rw [hfront]
    simp only [MIB] at hfits ⊢
    omega

theorem eight_GiB_of_memory_leave_a_viable_layout :
    (∃ sizing, calculateSwapSizing (8 * GIB) (100 * GIB) 1024 = .ok sizing ∧
      sizing.swapSizeMib = 9 * 1024) ∧
    ∀ sizing, calculateSwapSizing (8 * GIB) (100 * GIB) 1024 = .ok sizing →
      1024 ∣ sizing.swapSizeMib := by
  refine ⟨⟨_, calculateSwapSizing_ok.mpr ⟨by decide, rfl⟩, by decide⟩, fun sizing hsizing => ?_⟩
  exact ((swap_sizing_leaves_a_viable_layout (8 * GIB) (100 * GIB) 1024 (by decide) (by decide)
    (by decide)).2 sizing hsizing).1

end Viability

end Installer
