import SynOSStudio.Installer.GraphBoundary
import SynOSStudio.Installer.Plan

/-!
# The plan at the privilege boundary

Each record of the plan in both directions, and the plan from them. What `from_dict` takes
as it is comes back as it is, whatever the value.
-/

namespace Installer

open StrictDocuments

variable {F : Type}

/-! ## Input methods -/

theorem mapM_textOf (texts : List String) :
    (texts.map (fun s => (.text s : Json F))).mapM textOf = some texts := by
  induction texts with
  | nil => rfl
  | cons s texts ih => simp [textOf, ih]

theorem readInputMethods_list (texts : List String) :
    readInputMethods (Written.list (texts.map .text) : Written F).decoded = .ok texts := by
  have htexts := @mapM_textOf F texts
  simp only [readInputMethods, Written.decoded_list, List.map_map, Function.comp_def,
    Written.decoded_text, htexts]

theorem mapM_textOf_some {items : List (Json F)} {texts : List String}
    (h : items.mapM textOf = some texts) : items = texts.map .text := by
  induction items generalizing texts with
  | nil =>
    cases h
    rfl
  | cons item items ih =>
    simp only [List.mapM_cons, Option.bind_eq_bind, Option.bind_eq_some_iff] at h
    obtain ⟨s, hs, rest, hrest, h⟩ := h
    cases h
    cases item with
    | text s' =>
      cases hs
      rw [ih hrest, List.map_cons]
    | _ => cases hs

theorem same_inputMethods [DecidableEq F] {texts : List String} {v : Json F} (hvalid : v.Valid)
    (h : readInputMethods v = .ok texts) :
    same (Written.list (texts.map .text)).decoded v = true := by
  cases v with
  | array items =>
    simp only [readInputMethods] at h
    split at h
    · rename_i methods hmethods
      cases h
      rw [mapM_textOf_some hmethods] at hvalid ⊢
      rw [Written.decoded_list, List.map_map]
      exact same_refl hvalid
    · cases h
  | _ => cases h

/-! ## The records -/

section PlanRecords

theorem readSource_asdict (source : SourceSpec F) :
    readSource source.asdict.decoded = .ok source := by
  refine bind_ok.mpr ⟨_, exactly_of_names rfl, ?_⟩
  rfl

theorem readDisk_asdict (disk : DiskIdentity F) :
    readDisk disk.asdict.decoded = .ok disk := by
  refine bind_ok.mpr ⟨_, exactly_of_names rfl, ?_⟩
  rfl

theorem readPlatform_asdict (platform : PlatformSpec) :
    readPlatform (platform.asdict : Written F).decoded = .ok platform := by
  refine bind_ok.mpr ⟨_, exactly_of_names rfl, ?_⟩
  simp [field, List.lookup_cons]

theorem readIdentity_asdict (identity : IdentitySpec F) :
    readIdentity identity.asdict.decoded = .ok identity := by
  refine bind_ok.mpr ⟨_, exactly_of_names rfl, ?_⟩
  simp [field, List.lookup_cons]

theorem readAccess_asdict (access : AccessSpec F) :
    readAccess access.asdict.decoded = .ok access := by
  refine bind_ok.mpr ⟨_, exactly_of_names rfl, ?_⟩
  rfl

theorem readKeyboard_asdict (keyboard : KeyboardSpec F) :
    readKeyboard keyboard.asdict.decoded = .ok keyboard := by
  refine bind_ok.mpr ⟨_, exactly_of_names rfl, ?_⟩
  rfl

theorem readRegional_asdict (regional : RegionalSpec F) :
    readRegional regional.asdict.decoded = .ok regional := by
  refine bind_ok.mpr ⟨_, exactly_of_names rfl, ?_⟩
  simp [field, List.lookup_cons, readKeyboard_asdict, readInputMethods_list]

theorem readSoftware_asdict (software : SoftwareSpec F) :
    readSoftware software.asdict.decoded = .ok software := by
  refine bind_ok.mpr ⟨_, exactly_of_names rfl, ?_⟩
  rfl

theorem readSwap_asdict (swap : SwapSpec F) :
    readSwap swap.asdict.decoded = .ok swap := by
  refine bind_ok.mpr ⟨_, exactly_of_names rfl, ?_⟩
  rfl

theorem readBoot_asdict (boot : BootSpec F) :
    readBoot boot.asdict.decoded = .ok boot := by
  refine bind_ok.mpr ⟨_, exactly_of_names rfl, ?_⟩
  simp [field, List.lookup_cons]

theorem readStorage_asdict (storage : StorageSpec F) (hgraph : storage.graph.isSome = true) :
    readStorage storage.asdict.decoded = .ok storage := by
  obtain ⟨mode, disk, filesystem, espSizeMib, swapSizeMib, graph⟩ := storage
  obtain ⟨graph, rfl⟩ := Option.isSome_iff_exists.mp hgraph
  refine bind_ok.mpr ⟨_, exactly_of_names rfl, ?_⟩
  simp [field, List.lookup_cons, Written.ofOption, readDisk_asdict,
    graph_toDict]

variable [DecidableEq F]

theorem same_readSource {source : SourceSpec F} {v : Json F} (hvalid : v.Valid)
    (h : readSource v = .ok source) : same source.asdict.decoded v = true := by
  simp only [readSource, bind_ok] at h
  obtain ⟨_, hget, h⟩ := h
  obtain ⟨members, rfl, rfl, hnames⟩ := exactly_ok hget
  cases h
  refine same_object hvalid.1 hnames (by simp) rfl ?_
  simp only [Written.decodedMembers_cons, Written.decodedMembers_nil, List.forall_mem_cons]
  exact ⟨same_plain (hvalid.2.field _), nofun⟩

theorem same_readDisk {disk : DiskIdentity F} {v : Json F} (hvalid : v.Valid)
    (h : readDisk v = .ok disk) : same disk.asdict.decoded v = true := by
  simp only [readDisk, bind_ok] at h
  obtain ⟨_, hget, h⟩ := h
  obtain ⟨members, rfl, rfl, hnames⟩ := exactly_ok hget
  cases h
  refine same_object hvalid.1 hnames (by simp) rfl ?_
  simp only [Written.decodedMembers_cons, Written.decodedMembers_nil, List.forall_mem_cons]
  exact ⟨same_plain (hvalid.2.field _),
    same_plain (hvalid.2.field _),
    same_plain (hvalid.2.field _),
    same_plain (hvalid.2.field _),
    same_plain (hvalid.2.field _),
    nofun⟩

theorem same_readPlatform {platform : PlatformSpec} {v : Json F} (hvalid : v.Valid)
    (h : readPlatform v = .ok platform) : same platform.asdict.decoded v = true := by
  simp only [readPlatform, bind_ok] at h
  obtain ⟨_, hget, _, h₀, _, h₁, _, h₂, h⟩ := h
  obtain ⟨members, rfl, rfl, hnames⟩ := exactly_ok hget
  cases h
  refine same_object hvalid.1 hnames (by simp) rfl ?_
  simp only [Written.decodedMembers_cons, Written.decodedMembers_nil, List.forall_mem_cons]
  exact ⟨same_ofValue h₀,
    same_ofValue h₁,
    same_ofValue h₂,
    nofun⟩

theorem same_readIdentity {identity : IdentitySpec F} {v : Json F} (hvalid : v.Valid)
    (h : readIdentity v = .ok identity) : same identity.asdict.decoded v = true := by
  simp only [readIdentity, bind_ok] at h
  obtain ⟨_, hget, _, h₀, h⟩ := h
  obtain ⟨members, rfl, rfl, hnames⟩ := exactly_ok hget
  cases h
  refine same_object hvalid.1 hnames (by simp) rfl ?_
  simp only [Written.decodedMembers_cons, Written.decodedMembers_nil, List.forall_mem_cons]
  exact ⟨same_plain (hvalid.2.field _),
    same_plain (hvalid.2.field _),
    same_plain (hvalid.2.field _),
    same_ofValue h₀,
    same_plain (hvalid.2.field _),
    nofun⟩

theorem same_readAccess {access : AccessSpec F} {v : Json F} (hvalid : v.Valid)
    (h : readAccess v = .ok access) : same access.asdict.decoded v = true := by
  simp only [readAccess, bind_ok] at h
  obtain ⟨_, hget, h⟩ := h
  obtain ⟨members, rfl, rfl, hnames⟩ := exactly_ok hget
  cases h
  refine same_object hvalid.1 hnames (by simp) rfl ?_
  simp only [Written.decodedMembers_cons, Written.decodedMembers_nil, List.forall_mem_cons]
  exact ⟨same_plain (hvalid.2.field _),
    same_plain (hvalid.2.field _),
    same_plain (hvalid.2.field _),
    nofun⟩

theorem same_readKeyboard {keyboard : KeyboardSpec F} {v : Json F} (hvalid : v.Valid)
    (h : readKeyboard v = .ok keyboard) : same keyboard.asdict.decoded v = true := by
  simp only [readKeyboard, bind_ok] at h
  obtain ⟨_, hget, h⟩ := h
  obtain ⟨members, rfl, rfl, hnames⟩ := exactly_ok hget
  cases h
  refine same_object hvalid.1 hnames (by simp) rfl ?_
  simp only [Written.decodedMembers_cons, Written.decodedMembers_nil, List.forall_mem_cons]
  exact ⟨same_plain (hvalid.2.field _), same_plain (hvalid.2.field _), nofun⟩

theorem same_readRegional {regional : RegionalSpec F} {v : Json F} (hvalid : v.Valid)
    (h : readRegional v = .ok regional) : same regional.asdict.decoded v = true := by
  simp only [readRegional, bind_ok] at h
  obtain ⟨_, hget, _, h₀, _, h₁, h⟩ := h
  obtain ⟨members, rfl, rfl, hnames⟩ := exactly_ok hget
  cases h
  refine same_object hvalid.1 hnames (by simp) rfl ?_
  simp only [Written.decodedMembers_cons, Written.decodedMembers_nil, List.forall_mem_cons]
  exact ⟨same_plain (hvalid.2.field _),
    same_plain (hvalid.2.field _),
    same_readKeyboard (hvalid.2.field _) h₀,
    same_inputMethods (hvalid.2.field _) h₁,
    nofun⟩

theorem same_readSoftware {software : SoftwareSpec F} {v : Json F} (hvalid : v.Valid)
    (h : readSoftware v = .ok software) : same software.asdict.decoded v = true := by
  simp only [readSoftware, bind_ok] at h
  obtain ⟨_, hget, h⟩ := h
  obtain ⟨members, rfl, rfl, hnames⟩ := exactly_ok hget
  cases h
  refine same_object hvalid.1 hnames (by simp) rfl ?_
  simp only [Written.decodedMembers_cons, Written.decodedMembers_nil, List.forall_mem_cons]
  exact ⟨same_plain (hvalid.2.field _),
    same_plain (hvalid.2.field _),
    same_plain (hvalid.2.field _),
    nofun⟩

theorem same_readSwap {swap : SwapSpec F} {v : Json F} (hvalid : v.Valid)
    (h : readSwap v = .ok swap) : same swap.asdict.decoded v = true := by
  simp only [readSwap, bind_ok] at h
  obtain ⟨_, hget, h⟩ := h
  obtain ⟨members, rfl, rfl, hnames⟩ := exactly_ok hget
  cases h
  refine same_object hvalid.1 hnames (by simp) rfl ?_
  simp only [Written.decodedMembers_cons, Written.decodedMembers_nil, List.forall_mem_cons]
  exact ⟨same_plain (hvalid.2.field _),
    same_plain (hvalid.2.field _),
    same_plain (hvalid.2.field _),
    same_plain (hvalid.2.field _),
    same_plain (hvalid.2.field _),
    nofun⟩

theorem same_readBoot {boot : BootSpec F} {v : Json F} (hvalid : v.Valid)
    (h : readBoot v = .ok boot) : same boot.asdict.decoded v = true := by
  simp only [readBoot, bind_ok] at h
  obtain ⟨_, hget, _, h₀, h⟩ := h
  obtain ⟨members, rfl, rfl, hnames⟩ := exactly_ok hget
  cases h
  refine same_object hvalid.1 hnames (by simp) rfl ?_
  simp only [Written.decodedMembers_cons, Written.decodedMembers_nil, List.forall_mem_cons]
  exact ⟨same_plain (hvalid.2.field _), same_ofValue h₀, nofun⟩

theorem same_readStorage {storage : StorageSpec F} {v : Json F} (hvalid : v.Valid)
    (h : readStorage v = .ok storage) : same storage.asdict.decoded v = true := by
  simp only [readStorage, bind_ok] at h
  obtain ⟨_, hget, _, h₀, _, h₁, _, h₂, _, h₃, h⟩ := h
  obtain ⟨members, rfl, rfl, hnames⟩ := exactly_ok hget
  cases h
  refine same_object hvalid.1 hnames (by simp) rfl ?_
  simp only [Written.decodedMembers_cons, Written.decodedMembers_nil, List.forall_mem_cons]
  exact ⟨same_ofValue h₁,
    same_readDisk (hvalid.2.field _) h₀,
    same_ofValue h₂,
    same_plain (hvalid.2.field _),
    same_plain (hvalid.2.field _),
    same_graph (hvalid.2.field _) h₃,
    nofun⟩

end PlanRecords

/-! ## The plan -/

/-- A plan with a graph is read back from what it is written as. -/
theorem fromDict_toDict (plan : InstallPlan F) (hgraph : plan.storage.graph.isSome = true) :
    InstallPlan.fromDict plan.toDict.decoded = .ok plan := by
  refine bind_ok.mpr ⟨_, exactly_of_names rfl, ?_⟩
  simp [field, List.lookup_cons, readSource_asdict,
    readStorage_asdict plan.storage hgraph, readPlatform_asdict, readIdentity_asdict,
    readAccess_asdict, readRegional_asdict, readSoftware_asdict, readSwap_asdict,
    readBoot_asdict]

/-- A document that is accepted is what its plan is written as. -/
theorem same_fromDict [DecidableEq F] {plan : InstallPlan F} {v : Json F} (hvalid : v.Valid)
    (h : InstallPlan.fromDict v = .ok plan) : same plan.toDict.decoded v = true := by
  simp only [InstallPlan.fromDict, bind_ok] at h
  obtain ⟨_, hget, _, h₀, _, h₁, _, h₂, _, h₃, _, h₄, _, h₅, _, h₆, _, h₇, _, h₈, h⟩ := h
  obtain ⟨members, rfl, rfl, hnames⟩ := exactly_ok hget
  cases h
  refine same_object hvalid.1 hnames (by simp) rfl ?_
  simp only [Written.decodedMembers_cons, Written.decodedMembers_nil, List.forall_mem_cons]
  exact ⟨same_plain (hvalid.2.field _),
    same_readSource (hvalid.2.field _) h₀,
    same_readStorage (hvalid.2.field _) h₁,
    same_readPlatform (hvalid.2.field _) h₂,
    same_readIdentity (hvalid.2.field _) h₃,
    same_readAccess (hvalid.2.field _) h₄,
    same_readRegional (hvalid.2.field _) h₅,
    same_readSoftware (hvalid.2.field _) h₆,
    same_readSwap (hvalid.2.field _) h₇,
    same_readBoot (hvalid.2.field _) h₈,
    nofun⟩

/-- A plan with a graph comes back from its document, and a document that is accepted is
the document of its plan: nothing in it, at any depth, is missing from the plan. -/
theorem plan_survives_the_boundary [DecidableEq F] :
    (∀ plan : InstallPlan F, plan.storage.graph.isSome = true →
        InstallPlan.fromDict plan.toDict.decoded = .ok plan) ∧
      ∀ (document : Document F) (plan : InstallPlan F),
        InstallPlan.fromDict document.value = .ok plan →
          same plan.toDict.decoded document.value = true ∧
            ∀ path value, document.value.at path = some value →
              ∃ seen, plan.toDict.decoded.at path = some seen ∧ same seen value = true := by
  constructor
  · exact fromDict_toDict
  · intro document plan h
    have hsame : same plan.toDict.decoded document.value = true := same_fromDict document.valid h
    exact ⟨hsame, fun path value hvalue => same_at hsame hvalue⟩

/-- A plan that erases a disk, with one partition and no mount. -/
def erasingPlan : InstallPlan Unit where
  schemaVersion := .integer 15
  source := ⟨.text "/run/live/medium/live/filesystem.squashfs"⟩
  storage := {
    mode := .eraseDisk
    disk := ⟨.text "/dev/vda", .text "virtio-disk", .integer 68719476736, .text "", .text ""⟩
    filesystem := .btrfs
    espSizeMib := .integer 512
    swapSizeMib := .integer 0
    graph := some {
      schemaVersion := 5
      mode := .eraseDisk
      inventoryDigest := ""
      partitionTable := "gpt"
      blockReferences := [⟨"disk", .disk, "virtio-disk", "", 68719476736, 0, ""⟩]
      partitions := [⟨"root", "disk", 1, "SynOS", 1, none, ["boot"]⟩]
      partitionResizes := []
      filesystems := [⟨"root-filesystem", "root", .btrfs, "SynOS"⟩]
      subvolumes := [⟨"root-subvolume", "root-filesystem", "@", "/", true⟩]
      mounts := []
      bootTargets := []
      operations := [⟨.replacePartitionTable, "disk"⟩]
      requestedCapabilities := [.bootable] } }
  platform := ⟨.amd64, .uefi, .enabled⟩
  identity := ⟨.text "synos", .text "user", .text "", .password, .text "$y$"⟩
  access := ⟨.bool false, .bool false, .bool false⟩
  regional := ⟨.text "C.UTF-8", .text "UTC", ⟨.text "us", .text ""⟩, ["fcitx5"]⟩
  software := ⟨.bool true, .bool false, .bool false⟩
  swap := ⟨.bool true, .integer 50, .text "zstd", .integer 100, .integer 10⟩
  boot := ⟨.bool true, .synosDefault⟩

/-- The document of that plan. -/
def erasingDocument : Document Unit where
  value := erasingPlan.toDict.decoded
  valid := by
    simp [erasingPlan, InstallPlan.toDict, SourceSpec.asdict, StorageSpec.asdict,
      DiskIdentity.asdict, PlatformSpec.asdict, IdentitySpec.asdict, AccessSpec.asdict,
      RegionalSpec.asdict, KeyboardSpec.asdict, SoftwareSpec.asdict, SwapSpec.asdict,
      BootSpec.asdict, StorageGraph.toDict, BlockReference.toDict, PartitionDeclaration.toDict,
      FilesystemDeclaration.toDict, SubvolumeDeclaration.toDict, StorageGraphOperation.toDict,
      Written.decoded, Written.decodedItems, Written.decodedMembers, Written.text,
      Written.integer, Written.bool, Written.ofOption, Json.Valid, ValidItems, ValidMembers]

theorem erasing_plan_survives_the_boundary :
    InstallPlan.fromDict erasingPlan.toDict.decoded = .ok erasingPlan ∧
      same erasingPlan.toDict.decoded erasingDocument.value = true :=
  have hread := plan_survives_the_boundary.1 erasingPlan rfl
  ⟨hread, (plan_survives_the_boundary.2 erasingDocument erasingPlan hread).1⟩

end Installer
