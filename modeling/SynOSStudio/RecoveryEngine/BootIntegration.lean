import SynOSStudio.RecoveryEngine.Host

/-!
# Boot integration

A restore boots from copies of the kernel, the initramfs and the confirmation engine
of the running system. The copies are provisioned once for all transactions; each
transaction records the digests that it was provisioned with, and the boot entry is
only generated while the files still have them.
-/

namespace RecoveryEngine

inductive BootErrorCode where
  | noTransaction | invalidTransaction | invalidDeployment | unsupportedEnvironment
  | unsafeOutput | commandFailed
  deriving DecidableEq, Repr

structure BootError where
  code : BootErrorCode
  message : String
  deriving DecidableEq, Repr

/-- The three files that a recovery boots from; `none` is a path without a regular file. -/
structure BootFiles (γ : Type) where
  kernel : Option γ
  initramfs : Option γ
  confirm : Option γ
  deriving DecidableEq

/-- A provisioning that fails: how many of the three copies are in place by then. -/
structure ProvisionFault where
  placed : ℕ
  error : BootError

namespace BootIntegration

variable {γ : Type} (sha256 : γ → String)

section Files

def recoveryBoot : String := "/.snapshots/synos-btrfs-snapshots-manager/recovery-boot/"

def recoveryKernel : String := recoveryBoot ++ "vmlinuz"
def recoveryInitramfs : String := recoveryBoot ++ "initrd.img"
def recoveryConfirm : String := recoveryBoot ++ "confirm"

def systemConfirmBinary : String := "/usr/libexec/synos-btrfs-snapshots-manager-confirm"

/-- `ensure_regular_file`, with the contents that a later read finds. -/
def regularFile (path : String) (file : Option γ) : Except BootError γ :=
  match file with
  | some content => .ok content
  | none => .error ⟨.invalidDeployment, "Recovery boot artifact " ++ path ++
      " is unavailable: No such file or directory (os error 2)"⟩

def readKernelRelease (text : String) : Except BootError String :=
  let value := String.ofList (trimmed text.toList)
  if safeKernelRelease value then .ok value
  else .error ⟨.unsupportedEnvironment, "The running kernel release is unsafe"⟩

def verifyDigest (path : String) (file : Option γ) (expected name : String) :
    Except BootError Unit := do
  let content ← regularFile path file
  ensure (sha256 content == expected) ⟨.invalidDeployment,
    "The provisioned " ++ name ++ " no longer matches the rollback transaction"⟩

end Files

section Provisioning

/-- The recovery files once the first copies are in place. -/
def place (placed : ℕ) (system recovery : BootFiles γ) : BootFiles γ where
  kernel := if 0 < placed then system.kernel else recovery.kernel
  initramfs := if 1 < placed then system.initramfs else recovery.initramfs
  confirm := if 2 < placed then system.confirm else recovery.confirm

/-- What is checked before the first copy. -/
def systemFiles (release : String) (system : BootFiles γ) :
    Except BootError (String × γ × γ × γ) := do
  let release ← readKernelRelease release
  let kernel ← regularFile ("/boot/vmlinuz-" ++ release) system.kernel
  let initramfs ← regularFile ("/boot/initrd.img-" ++ release) system.initramfs
  let confirm ← regularFile systemConfirmBinary system.confirm
  pure (release, kernel, initramfs, confirm)

/-- `provision_recovery_boot_artifacts_from`: the digests are those of the copies. -/
def provision (fault : Option ProvisionFault) (release : String) (system recovery : BootFiles γ) :
    Except BootError RecoveryBootArtifacts × BootFiles γ :=
  match systemFiles release system, fault with
  | .error e, _ => (.error e, recovery)
  | .ok _, some fault => (.error fault.error, place fault.placed system recovery)
  | .ok (release, kernel, initramfs, confirm), none =>
    (.ok ⟨release, sha256 kernel, sha256 initramfs, sha256 confirm⟩, place 3 system recovery)

end Provisioning

section Menu

/-- What the environment contributes to the generation of the entry. -/
structure MenuEnvironment where
  record : DeploymentId → Except String DeploymentRecord
  protectedConfirm : Except BootError Unit
  executableFilesystem : Except BootError Unit
  grubPath : String → Except BootError String

/-- The files of `recovery-boot` against the digests of the transaction. -/
def verifyArtifacts (files : BootFiles γ) (t : RollbackTransaction) : Except BootError Unit := do
  verifyDigest sha256 recoveryKernel files.kernel t.recoveryKernelSha256 "recovery kernel"
  verifyDigest sha256 recoveryInitramfs files.initramfs t.recoveryInitramfsSha256
    "recovery initramfs"
  verifyDigest sha256 recoveryConfirm files.confirm t.recoveryConfirmSha256
    "recovery confirmation engine"

def menuText (t : RollbackTransaction) (kernelPath initramfsPath : String) : String :=
  "menuentry 'Disk Snapshots Manager recovery' --class synos --class gnu-linux --id '" ++
    t.grubEntryId ++ "' \x7b\n" ++
  "\tinsmod btrfs\n" ++
  "\tsearch --no-floppy --fs-uuid --set=root " ++ t.rootFilesystemUuid ++ "\n" ++
  "\techo 'Starting SynOS system recovery…'\n" ++
  "\tset btrfs_snapshots_manager_next_entry='" ++ t.grubEntryId ++ "'\n" ++
  "\tsave_env -f \"($btrfs_snapshots_manager_esp)/EFI/synos/btrfs-snapshots-manager-grubenv\" " ++
    "btrfs_snapshots_manager_next_entry\n" ++
  "\tlinux " ++ kernelPath ++ " root=UUID=" ++ t.rootFilesystemUuid ++
    " ro rootflags=subvol=@root synos.btrfs_snapshots_manager=" ++ t.id.hyphenated ++
    " synos.btrfs_snapshots_manager_protocol=" ++ toString t.recoveryProtocolVersion ++ "\n" ++
  "\tinitrd " ++ initramfsPath ++ "\n" ++
  "\x7d\n"

/-- The part of `recovery_menu_entry` for a transaction that waits for its boot. -/
def waitingMenuEntry (environment : MenuEnvironment) (files : BootFiles γ)
    (t : RollbackTransaction) : Except BootError String := do
  ensure (t.recoveryProtocolVersion == recoveryProtocolVersion) ⟨.invalidTransaction,
    "A legacy recovery transaction cannot be armed with the current boot protocol"⟩
  let target ← (environment.record t.targetDeploymentId).mapError fun e =>
    (⟨.invalidDeployment, e⟩ : BootError)
  ensure target.canRestore
    ⟨.invalidDeployment, "GRUB recovery target is not a complete, healthy snapshot"⟩
  let _ ← regularFile recoveryKernel files.kernel
  let _ ← regularFile recoveryInitramfs files.initramfs
  environment.protectedConfirm
  environment.executableFilesystem
  verifyArtifacts sha256 files t
  let kernelPath ← environment.grubPath recoveryKernel
  let initramfsPath ← environment.grubPath recoveryInitramfs
  pure (menuText t kernelPath initramfsPath)

/-- `recovery_menu_entry`, from the stored transaction. -/
def recoveryMenuEntry (environment : MenuEnvironment) (files : BootFiles γ)
    (pending : Option RollbackTransaction) : Except BootError (Option String) :=
  match pending with
  | none => .ok none
  | some t => do
    t.validate.mapError fun e => (⟨.invalidTransaction, e.message⟩ : BootError)
    if t.phase = .preparing ∨ t.phase = .armed then
      let text ← waitingMenuEntry sha256 environment files t
      pure (some text)
    else
      pure none

end Menu

section Digests

/-- The files have the digests that the transaction recorded. -/
structure Matches (files : BootFiles γ) (t : RollbackTransaction) : Prop where
  kernel : files.kernel.map sha256 = some t.recoveryKernelSha256
  initramfs : files.initramfs.map sha256 = some t.recoveryInitramfsSha256
  confirm : files.confirm.map sha256 = some t.recoveryConfirmSha256

variable {sha256} {files system recovery : BootFiles γ} {t : RollbackTransaction}

theorem verifyDigest_eq_ok (path : String) (file : Option γ) (expected name : String) :
    verifyDigest sha256 path file expected name = .ok () ↔ file.map sha256 = some expected := by
  cases file with
  | none => simp [verifyDigest, regularFile, bind, Except.bind]
  | some content => simp [verifyDigest, regularFile, bind, Except.bind]

theorem verifyArtifacts_eq_ok :
    verifyArtifacts sha256 files t = .ok () ↔ Matches sha256 files t := by
  unfold verifyArtifacts
  simp only [bind_eq_ok_unit, verifyDigest_eq_ok]
  exact ⟨fun ⟨hkernel, hinitramfs, hconfirm⟩ => ⟨hkernel, hinitramfs, hconfirm⟩,
    fun h => ⟨h.kernel, h.initramfs, h.confirm⟩⟩

theorem waitingMenuEntry_matches {environment : MenuEnvironment} {text : String}
    (h : waitingMenuEntry sha256 environment files t = .ok text) :
    t.recoveryProtocolVersion = recoveryProtocolVersion ∧ Matches sha256 files t := by
  unfold waitingMenuEntry at h
  simp only [bind_eq_ok] at h
  obtain ⟨⟨⟩, hprotocol, _, -, _, -, _, -, _, -, _, -, _, -, ⟨⟩, hartifacts, -⟩ := h
  exact ⟨by simpa using hprotocol, verifyArtifacts_eq_ok.mp hartifacts⟩

/-- The configuration is generated for a waiting transaction only with matching files. -/
theorem recoveryMenuEntry_matches {environment : MenuEnvironment} {entry : Option String}
    (h : recoveryMenuEntry sha256 environment files (some t) = .ok entry)
    (hwaiting : t.phase = .preparing ∨ t.phase = .armed) : Matches sha256 files t := by
  unfold recoveryMenuEntry at h
  simp only [bind_eq_ok, if_pos hwaiting] at h
  obtain ⟨_, -, text, htext, -⟩ := h
  exact (waitingMenuEntry_matches htext).2

/-- Copies of files with the same digests do no harm. -/
theorem Matches.place (h : Matches sha256 recovery t) (placed : ℕ)
    (hkernel : 0 < placed → system.kernel.map sha256 = some t.recoveryKernelSha256)
    (hinitramfs : 1 < placed → system.initramfs.map sha256 = some t.recoveryInitramfsSha256)
    (hconfirm : 2 < placed → system.confirm.map sha256 = some t.recoveryConfirmSha256) :
    Matches sha256 (BootIntegration.place placed system recovery) t where
  kernel := by
    show (if 0 < placed then system.kernel else recovery.kernel).map sha256 = _
    split_ifs with hplaced
    · exact hkernel hplaced
    · exact h.kernel
  initramfs := by
    show (if 1 < placed then system.initramfs else recovery.initramfs).map sha256 = _
    split_ifs with hplaced
    · exact hinitramfs hplaced
    · exact h.initramfs
  confirm := by
    show (if 2 < placed then system.confirm else recovery.confirm).map sha256 = _
    split_ifs with hplaced
    · exact hconfirm hplaced
    · exact h.confirm

end Digests

end BootIntegration

end RecoveryEngine
