import SynOSStudio.Installer.TargetEnvironment

/-!
# The pipeline of the executor

`build_steps`. The steps other than the four that open and close the target are arbitrary ones.
-/

namespace Installer

open StrictDocuments

variable {F R W : Type}

/-- The steps other than those of the target environment. -/
structure PipelineSteps (F W : Type) where
  detectBootEnvironment : InstallStep F W
  detectNetworkConnectivity : InstallStep F W
  verifyTargetDisk : InstallStep F W
  prepareStorage : InstallStep F W
  copySystem : InstallStep F W
  migrateWifiConnection : InstallStep F W
  configureStorage : InstallStep F W
  removeLivePackages : InstallStep F W
  configureKeyboard : InstallStep F W
  selectFastestAptMirror : InstallStep F W
  prepareSecureBoot : InstallStep F W
  installLanguagePacks : InstallStep F W
  installInputMethod : InstallStep F W
  installMultimediaCodecs : InstallStep F W
  configureSystem : InstallStep F W
  refreshPackageIndexes : InstallStep F W
  upgradeSystem : InstallStep F W
  ensureSnapshotsManager : InstallStep F W
  installThirdPartyDrivers : InstallStep F W
  provisionRemoteAccess : InstallStep F W
  verifyDkmsSignatures : InstallStep F W
  installBootloader : InstallStep F W
  enrollSecureBoot : InstallStep F W
  checkOtherDiskSystems : InstallStep F W

/-- `build_steps`; `truthy` is the truth of a value of the plan. -/
def buildSteps (truthy : Json F → Bool) (host : TargetHost) (target : Location)
    (steps : PipelineSteps F (TargetValues R)) (plan : InstallPlan F) :
    List (InstallStep F (TargetValues R)) :=
  [steps.detectBootEnvironment, steps.detectNetworkConnectivity, steps.verifyTargetDisk,
    steps.prepareStorage, mountTargetStep host target, steps.copySystem,
    steps.migrateWifiConnection, steps.configureStorage, enterChrootStep host target,
    steps.removeLivePackages, steps.configureKeyboard, steps.selectFastestAptMirror,
    steps.prepareSecureBoot, steps.installLanguagePacks, steps.installInputMethod] ++
  (if truthy plan.software.installMultimediaCodecs then [steps.installMultimediaCodecs] else []) ++
  [steps.configureSystem] ++
  (if truthy plan.software.installUpdates then [steps.refreshPackageIndexes, steps.upgradeSystem]
    else []) ++
  (if plan.storage.filesystem = .btrfs then [steps.ensureSnapshotsManager] else []) ++
  (if truthy plan.software.installThirdPartyDrivers then [steps.installThirdPartyDrivers]
    else []) ++
  [steps.provisionRemoteAccess, steps.verifyDkmsSignatures, steps.installBootloader,
    steps.enrollSecureBoot] ++
  (if plan.platform.firmware = .uefi then [steps.checkOtherDiskSystems] else []) ++
  [leaveChrootStep host, unmountTargetStep host]

/-- `describe_installation_pipeline` -/
def describePipeline (truthy : Json F → Bool) (host : TargetHost) (target : Location)
    (steps : PipelineSteps F (TargetValues R)) (plan : InstallPlan F) : List (String × ℤ) :=
  (buildSteps truthy host target steps plan).map fun step => (step.id, StepRunner.weight step)

/-! ## Where the other steps stand -/

namespace PipelineSteps

variable (steps : PipelineSteps F W)

def before : List (InstallStep F W) :=
  [steps.detectBootEnvironment, steps.detectNetworkConnectivity, steps.verifyTargetDisk,
    steps.prepareStorage]

def mounted : List (InstallStep F W) :=
  [steps.copySystem, steps.migrateWifiConnection, steps.configureStorage]

def inside (truthy : Json F → Bool) (plan : InstallPlan F) : List (InstallStep F W) :=
  [steps.removeLivePackages, steps.configureKeyboard, steps.selectFastestAptMirror,
    steps.prepareSecureBoot, steps.installLanguagePacks, steps.installInputMethod] ++
  (if truthy plan.software.installMultimediaCodecs then [steps.installMultimediaCodecs] else []) ++
  [steps.configureSystem] ++
  (if truthy plan.software.installUpdates then [steps.refreshPackageIndexes, steps.upgradeSystem]
    else []) ++
  (if plan.storage.filesystem = .btrfs then [steps.ensureSnapshotsManager] else []) ++
  (if truthy plan.software.installThirdPartyDrivers then [steps.installThirdPartyDrivers]
    else []) ++
  [steps.provisionRemoteAccess, steps.verifyDkmsSignatures, steps.installBootloader,
    steps.enrollSecureBoot] ++
  if plan.platform.firmware = .uefi then [steps.checkOtherDiskSystems] else []

/-- All the other steps. -/
def all : List (InstallStep F W) :=
  steps.before ++ steps.mounted ++ [steps.removeLivePackages, steps.configureKeyboard,
    steps.selectFastestAptMirror, steps.prepareSecureBoot, steps.installLanguagePacks,
    steps.installInputMethod, steps.installMultimediaCodecs, steps.configureSystem,
    steps.refreshPackageIndexes, steps.upgradeSystem, steps.ensureSnapshotsManager,
    steps.installThirdPartyDrivers, steps.provisionRemoteAccess, steps.verifyDkmsSignatures,
    steps.installBootloader, steps.enrollSecureBoot, steps.checkOtherDiskSystems]

variable {steps} {truthy : Json F → Bool} {plan : InstallPlan F} {step : InstallStep F W}

theorem mem_all_of_before (h : step ∈ steps.before) : step ∈ steps.all := by
  simp [all, h]

theorem mem_all_of_mounted (h : step ∈ steps.mounted) : step ∈ steps.all := by
  simp [all, h]

theorem mem_all_of_inside (h : step ∈ steps.inside truthy plan) : step ∈ steps.all := by
  simp only [inside, List.mem_append, List.mem_ite_nil_right, List.mem_cons, List.not_mem_nil,
    or_false] at h
  simp only [all, List.mem_append, List.mem_cons, List.not_mem_nil, or_false]
  tauto

end PipelineSteps

theorem buildSteps_eq (truthy : Json F → Bool) (host : TargetHost) (target : Location)
    (steps : PipelineSteps F (TargetValues R)) (plan : InstallPlan F) :
    buildSteps truthy host target steps plan = steps.before ++ mountTargetStep host target ::
      (steps.mounted ++ enterChrootStep host target :: (steps.inside truthy plan ++
        [leaveChrootStep host, unmountTargetStep host])) := by
  simp only [buildSteps, PipelineSteps.before, PipelineSteps.mounted, PipelineSteps.inside,
    List.append_assoc, List.cons_append, List.nil_append]

end Installer
