import SynOSStudio.CompensatedRuns.Actions
import SynOSStudio.Installer.Planning
import SynOSStudio.Installer.StepRunner
import SynOSStudio.TextLines.Lines

/-!
# The environment of the target

The four steps that mount the target and open and close the isolated environment in it, over a
table of mounts and the two files that are replaced in the target for as long as it is open. Every
command and every operation on a file may end in each way it can end: in success, with an exit
status that is not zero, or with an exception, before or after it took effect.
-/

namespace Installer

open CompensatedRuns

/-- The components of a path, from the root. -/
abbrev Location := List String

local instance lawfulBEq_location : LawfulBEq (List String) := inferInstance

/-- What `lstrip` and the operator `/` make of a mount point of a subvolume. -/
def relativeLocation (mountPoint : String) : Location :=
  ((mountPoint.toList.splitOn '/').filter fun part => !part.isEmpty).map String.ofList

/-! ## Files of the target -/

/-- The two files that are replaced. -/
inductive GuestFile where
  | resolver
  | policy
  deriving DecidableEq

inductive GuestNode where
  | absent
  | file (data : List UInt8) (mode : ℕ)
  | symlink (target : String)
  | other
  deriving DecidableEq

/-- What a link points to is written through it. -/
def GuestNode.written (newMode : ℕ) (data : List UInt8) : GuestNode → GuestNode
  | .absent => .file data newMode
  | .file _ mode => .file data mode
  | node => node

def GuestNode.withMode (mode : ℕ) : GuestNode → GuestNode
  | .file data _ => .file data mode
  | node => node

/-- `FileBackup` -/
inductive FileBackup where
  | absent
  | file (data : List UInt8) (mode : ℕ)
  | symlink (target : String)
  deriving DecidableEq

def FileBackup.node : FileBackup → GuestNode
  | .absent => .absent
  | .file data mode => .file data mode
  | .symlink target => .symlink target

/-! ## The state -/

/-- The mounts, oldest first, and the values of the context that keep account of them. -/
structure HeldMounts where
  mounts : List Location
  target : Option Location
  topLevelMounted : Bool
  rootMounted : Bool
  efiMounted : Bool
  btrfsMounts : List Location
  chrootMounts : List Location
  environmentReady : Bool
  backups : GuestFile → Option FileBackup

structure TargetValues (R : Type) where
  held : HeldMounts
  files : GuestFile → GuestNode
  partitionDevices : Option (List (String × String))
  issued : ℕ
  rest : R

/-! ## Operations -/

inductive TargetOperation where
  | mount (options : List String) (source : String) (location : Location)
  | bindTree (source location : Location)
  | makeSlave (location : Location)
  | createSubvolume (location : Location)
  | umount (location : Location)
  | umountTree (location : Location)
  | sync
  | deactivateSwap
  | mkdir (location : Location)
  | readHostResolver
  | inspect (file : GuestFile)
  | unlink (file : GuestFile)
  | link (file : GuestFile) (target : String)
  | write (file : GuestFile) (data : List UInt8)
  | chmod (file : GuestFile) (mode : ℕ)
  deriving DecidableEq

/-- How an operation ends, if the state lets it succeed. An operation on a file that exits has
raised. -/
inductive OperationEnd where
  | done
  | exited
  | raised (effective : Bool) (message : String)
  deriving DecidableEq

/-- What is outside the installer: the end of the `n`th operation and the text of its failure, the
answers of `findmnt`, the commands that are there, the host's own `resolv.conf` and the mode of a
file that is made. -/
structure TargetHost where
  ends : TargetOperation → ℕ → OperationEnd
  refusal : TargetOperation → String
  findmnt : Location → ℕ → Except String (Option String)
  isPresent : String → Bool
  realpath : String → String
  resolver : List UInt8
  newMode : ℕ
  linkIsExecutable : String → Bool

/-- No mount at or below this place but the last one at it. -/
def canUmount (location : Location) (mounts : List Location) : Bool :=
  decide (location ∈ mounts ∧ ∀ m ∈ mounts, location <+: m → m = location)

/-- Take the last mount at this place out of the table. -/
def dropLastMount (location : Location) (mounts : List Location) : List Location :=
  (mounts.reverse.erase location).reverse

/-- The mounts below a directory, as they appear below the place it is bound to. -/
def boundBelow (source location : Location) (mounts : List Location) : List Location :=
  (mounts.filter fun m => decide (source <+: m ∧ m ≠ source)).map fun m =>
    location ++ m.drop source.length

namespace TargetValues

variable {R : Type} (values : TargetValues R)

def setMounts (mounts : List Location) : TargetValues R :=
  { values with held := { values.held with mounts := mounts } }

def setFile (file : GuestFile) (node : GuestNode) : TargetValues R :=
  { values with files := Function.update values.files file node }

/-- Whether the operation can succeed. -/
def permits : TargetOperation → Bool
  | .umount location => canUmount location values.held.mounts
  | .umountTree location => decide (location ∈ values.held.mounts)
  | .inspect file => values.files file != .other
  | .unlink file => values.files file != .other && values.files file != .absent
  | .link file _ => values.files file = .absent
  | .write file _ => values.files file != .other
  | .chmod file _ => values.files file != .absent
  | _ => true

def after (host : TargetHost) : TargetOperation → TargetValues R
  | .mount _ _ location => values.setMounts (values.held.mounts ++ [location])
  | .bindTree source location => values.setMounts
      (values.held.mounts ++ location :: boundBelow source location values.held.mounts)
  | .umount location => values.setMounts (dropLastMount location values.held.mounts)
  | .umountTree location => values.setMounts
      (values.held.mounts.filter fun m => decide (¬ location <+: m))
  | .unlink file => values.setFile file .absent
  | .link file target => values.setFile file (.symlink target)
  | .write file data => values.setFile file ((values.files file).written host.newMode data)
  | .chmod file mode => values.setFile file ((values.files file).withMode mode)
  | _ => values

end TargetValues

variable {R : Type}

abbrev TargetAction (R α : Type) := EStateM String (TargetValues R) α

section Actions

variable (host : TargetHost)

/-- Carry out an operation, and say whether it succeeded. -/
def operate (op : TargetOperation) : TargetAction R Bool := fun values =>
  let counted := { values with issued := values.issued + 1 }
  match host.ends op values.issued with
  | .done => if values.permits op then .ok true (counted.after host op) else .ok false counted
  | .exited => .ok false counted
  | .raised effective message =>
    .error message (if effective && values.permits op then counted.after host op else counted)

/-- An operation that raises where it does not succeed. -/
def checked (op : TargetOperation) : TargetAction R PUnit := do
  if (← operate host op) then pure ⟨⟩ else throw (host.refusal op)

/-- What `findmnt` prints about a mount, if there is one. -/
def findmnt (location : Location) : TargetAction R (Option String) := fun values =>
  let counted := { values with issued := values.issued + 1 }
  match host.findmnt location values.issued with
  | .ok answer => .ok answer counted
  | .error message => .error message counted

def requireCommands (commands : List String) : TargetAction R PUnit :=
  let missing := commands.filter fun command => !host.isPresent command
  if missing = [] then pure ⟨⟩
  else throw ("Required commands are missing: " ++
    ", ".intercalate (missing.mergeSort fun a b => decide (a ≤ b)))

def update (f : HeldMounts → HeldMounts) : TargetAction R PUnit :=
  modify fun values => { values with held := f values.held }

def whenHeld (flag : HeldMounts → Bool) (action : TargetAction R PUnit) :
    TargetAction R PUnit := do
  if flag (← get).held then action else pure ⟨⟩

def Location.text (location : Location) : String := "/" ++ "/".intercalate location

/-- `_target` -/
def requireTarget : TargetAction R Location := do
  match (← get).held.target with
  | none => throw "Target filesystem is not mounted"
  | some target => pure target

/-- `context.values["partition_devices"]`; a missing key raises with its name. -/
def partitionDevices : TargetAction R (List (String × String)) := do
  match (← get).partitionDevices with
  | none => throw "partition_devices"
  | some devices => pure devices

def deviceOf (devices : List (String × String)) (name : String) : TargetAction R String :=
  match devices.lookup name with
  | none => throw name
  | some device => pure device

/-! ## Mounting the target -/

/-- `mount_options`, without its first word. -/
def BtrfsSubvolume.mountOptions (subvolume : BtrfsSubvolume) : String :=
  "subvol=" ++ subvolume.name ++ ",compress=zstd,noatime"

def BtrfsSubvolume.location (target : Location) (subvolume : BtrfsSubvolume) : Location :=
  target ++ relativeLocation subvolume.mountPoint

def efiLocation (target : Location) : Location := target ++ ["boot", "efi"]

namespace MountTargetStep

variable (target : Location) (filesystem : Filesystem)

def preflight : TargetAction R PUnit := do
  requireCommands host (["mount", "umount", "findmnt"] ++
    if filesystem = .btrfs then ["btrfs"] else [])
  if (← findmnt host target).isSome then throw ("Target is already mounted: " ++ target.text)
  else pure ⟨⟩

def mountSubvolume (root : String) (subvolume : BtrfsSubvolume) : TargetAction R PUnit := do
  checked host (.mkdir (subvolume.location target))
  checked host (.mount [subvolume.mountOptions] root (subvolume.location target))
  update fun held =>
    { held with btrfsMounts := held.btrfsMounts ++ [subvolume.location target] }

def mountSubvolumes (root : String) : TargetAction R PUnit := do
  checked host (.mount [] root target)
  update fun held => { held with topLevelMounted := true }
  BTRFS_SUBVOLUMES.forM fun subvolume =>
    checked host (.createSubvolume (target ++ [subvolume.name]))
  checked host (.umount target)
  update fun held => { held with topLevelMounted := false, btrfsMounts := [] }
  BTRFS_SUBVOLUMES.forM (mountSubvolume host target root)

def mountRoot (root : String) : TargetAction R PUnit := do
  checked host (.mount ["noatime"] root target)
  update fun held => { held with rootMounted := true }

def mountFilesystem (root : String) : TargetAction R PUnit :=
  if filesystem = .btrfs then mountSubvolumes host target root else mountRoot host target root

def execute : TargetAction R PUnit := do
  let devices ← partitionDevices
  checked host (.mkdir target)
  let root ← deviceOf devices "root"
  mountFilesystem host target filesystem root
  checked host (.mkdir (efiLocation target))
  let efi ← deviceOf devices "efi-system"
  checked host (.mount [] efi (efiLocation target))
  update fun held => { held with efiMounted := true, target := some target }

def verifySource (location : Location) (expected : String) : TargetAction R PUnit := do
  match ← findmnt host location with
  | none => throw ("Mount verification failed: " ++ location.text)
  | some printed =>
    let actual := String.ofList ((TextLines.strip printed.toList).takeWhile (· != '['))
    if actual = "" ∨ host.realpath actual ≠ host.realpath expected then
      throw ("Mount source mismatch for " ++ location.text ++ ": expected " ++ expected ++
        ", found " ++ if actual = "" then "nothing" else actual)
    else pure ⟨⟩

def verify : TargetAction R PUnit := do
  let devices ← partitionDevices
  let root ← deviceOf devices "root"
  let efi ← deviceOf devices "efi-system"
  let mounted := (← get).held.btrfsMounts
  ((target, root) :: (efiLocation target, efi) ::
    (mounted.drop 1).map fun location => (location, root)).forM fun expected =>
      verifySource host expected.1 expected.2

/-- A command whose exit status is not looked at. -/
def umountQuietly (location : Location) : TargetAction R PUnit := do
  let _ ← operate host (.umount location)

def cleanup : TargetAction R PUnit := do
  whenHeld HeldMounts.efiMounted do
    umountQuietly host (efiLocation target)
    update fun held => { held with efiMounted := false }
  (← get).held.btrfsMounts.reverse.forM (umountQuietly host)
  update fun held => { held with btrfsMounts := [] }
  whenHeld HeldMounts.rootMounted do
    umountQuietly host target
    update fun held => { held with rootMounted := false }
  whenHeld HeldMounts.topLevelMounted do
    umountQuietly host target
    update fun held => { held with topLevelMounted := false }

end MountTargetStep

/-! ## The two files -/

section Files

variable (target : Location)

def GuestFile.parent : GuestFile → Location
  | .resolver => target ++ ["etc"]
  | .policy => target ++ ["usr", "sbin"]

/-- `_backup_file` -/
def backupFile (file : GuestFile) : TargetAction R FileBackup := do
  checked host (.inspect file)
  match (← get).files file with
  | .absent => pure .absent
  | .file data mode => pure (.file data mode)
  | .symlink target => pure (.symlink target)
  | .other => throw (host.refusal (.inspect file))

def unlinkExisting (file : GuestFile) : TargetAction R PUnit := do
  if (← get).files file = .absent then pure ⟨⟩ else checked host (.unlink file)

/-- `_replace_regular_file` -/
def replaceRegularFile (file : GuestFile) (data : List UInt8) (mode : ℕ) :
    TargetAction R PUnit := do
  checked host (.mkdir (file.parent target))
  unlinkExisting host file
  checked host (.write file data)
  checked host (.chmod file mode)

/-- `_restore_file` -/
def restoreFile (file : GuestFile) (backup : FileBackup) : TargetAction R PUnit := do
  unlinkExisting host file
  match backup with
  | .absent => pure ⟨⟩
  | .symlink link => do
    checked host (.mkdir (file.parent target))
    checked host (.link file link)
  | .file data mode => do
    checked host (.mkdir (file.parent target))
    checked host (.write file data)
    checked host (.chmod file mode)

end Files

/-! ## The isolated environment -/

def policyScript : List UInt8 :=
  "#!/bin/sh\n# Installed temporarily by SynOS Installer.\nexit 101\n".toUTF8.toList

def chrootNames : List String := ["dev", "proc", "sys", "run"]

namespace EnterChrootStep

variable (target : Location)

def preflight : TargetAction R PUnit := do
  requireCommands host ["mount", "umount", "findmnt"]
  chrootNames.forM fun name => do
    if (← findmnt host (target ++ [name])).isSome then
      throw ("Unexpected existing target mount: " ++ Location.text (target ++ [name]))
    else pure ⟨⟩

/-- Mount something and append its place to `chroot_mounts`. -/
def mountRecorded (op : TargetOperation) (location : Location) : TargetAction R PUnit := do
  checked host op
  update fun held => { held with chrootMounts := held.chrootMounts ++ [location] }

def mountAll : TargetAction R PUnit := do
  mountRecorded host (.bindTree ["dev"] (target ++ ["dev"])) (target ++ ["dev"])
  checked host (.makeSlave (target ++ ["dev"]))
  mountRecorded host (.mount ["-t", "proc"] "proc" (target ++ ["proc"])) (target ++ ["proc"])
  mountRecorded host (.bindTree ["sys"] (target ++ ["sys"])) (target ++ ["sys"])
  checked host (.makeSlave (target ++ ["sys"]))
  mountRecorded host
    (.mount ["-t", "tmpfs", "-o", "mode=0755,nosuid,nodev"] "tmpfs" (target ++ ["run"]))
    (target ++ ["run"])

def saveBackup (file : GuestFile) : TargetAction R PUnit := do
  let backup ← backupFile host file
  update fun held => { held with backups := Function.update held.backups file (some backup) }

def execute : TargetAction R PUnit := do
  let target ← requireTarget
  update fun held => { held with chrootMounts := [] }
  chrootNames.forM fun name => checked host (.mkdir (target ++ [name]))
  mountAll host target
  saveBackup host .resolver
  saveBackup host .policy
  checked host .readHostResolver
  replaceRegularFile host target .resolver host.resolver 0o644
  replaceRegularFile host target .policy policyScript 0o755
  update fun held => { held with environmentReady := true }

def isIsolating : GuestNode → Bool
  | .file _ mode => mode &&& 0o111 ≠ 0
  | .symlink link => host.linkIsExecutable link
  | _ => false

def verify : TargetAction R PUnit := do
  let _ ← requireTarget
  if isIsolating host ((← get).files .policy) then
    (← get).held.chrootMounts.forM fun location => do
      if (← findmnt host location).isNone then
        throw ("Chroot mount verification failed: " ++ location.text)
      else pure ⟨⟩
  else throw "policy-rc.d isolation is not active"

end EnterChrootStep

/-- `context.values.pop` and `_restore_file`. -/
def restoreBackup (target : Location) (file : GuestFile) (backup : Option FileBackup) :
    TargetAction R PUnit :=
  match backup with
  | none => pure ⟨⟩
  | some backup => restoreFile host target file backup

/-- The places whose mounts could not be removed. -/
def umountTrees : List Location → TargetAction R (List Location)
  | [] => pure []
  | location :: locations => do
    let succeeded ← operate host (.umountTree location)
    let failed ← umountTrees locations
    pure (if succeeded then failed else location :: failed)

def leaveMounts (check : Bool) : TargetAction R PUnit := do
  let mounts := (← get).held.chrootMounts
  let failed ← umountTrees host mounts.reverse
  let remaining := mounts.filter fun location => decide (location ∈ failed)
  update fun held => { held with
    chrootMounts := remaining
    environmentReady := !remaining.isEmpty }
  if check && !remaining.isEmpty then
    throw ("Could not unmount chroot filesystems: " ++
      ", ".intercalate (remaining.map Location.text))
  else pure ⟨⟩

def closeChroot (target : Location) (check : Bool) : TargetAction R PUnit := do
  let backups := (← get).held.backups
  update fun held => { held with backups := fun _ => none }
  restoreBackup host target .resolver (backups .resolver)
  restoreBackup host target .policy (backups .policy)
  leaveMounts host check

/-- `_leave_chroot` -/
def leaveChroot (check : Bool) : TargetAction R PUnit := do
  match (← get).held.target with
  | none => pure ⟨⟩
  | some target => closeChroot host target check

namespace LeaveChrootStep

def verify : TargetAction R PUnit := do
  let held := (← get).held
  if held.chrootMounts ≠ [] then throw "Chroot mounts remain after cleanup"
  else if held.environmentReady then throw "Chroot environment state remains active"
  else pure ⟨⟩

end LeaveChrootStep

namespace UnmountTargetStep

def preflight : TargetAction R PUnit := requireCommands host ["sync", "umount", "swapon", "swapoff"]

def execute : TargetAction R PUnit := do
  let target ← requireTarget
  checked host .sync
  checked host .sync
  whenHeld HeldMounts.efiMounted do
    checked host (.umount (efiLocation target))
    update fun held => { held with efiMounted := false }
  (← get).held.btrfsMounts.reverse.forM fun location => checked host (.umount location)
  update fun held => { held with btrfsMounts := [] }
  whenHeld HeldMounts.rootMounted do
    checked host (.umount target)
    update fun held => { held with rootMounted := false }
  checked host .deactivateSwap

def verify : TargetAction R PUnit := do
  let held := (← get).held
  if held.efiMounted || held.rootMounted || !held.btrfsMounts.isEmpty then
    throw "Target mount state was not cleared"
  else pure ⟨⟩

end UnmountTargetStep

end Actions

/-! ## The four steps -/

section Steps

variable {F : Type} (host : TargetHost) (target : Location)

/-- A method that raises ordinary exceptions only. -/
def methodOf (action : InstallPlan F → TargetAction R PUnit) : StepMethod F (TargetValues R) :=
  fun state =>
    match action state.plan state.values with
    | .ok _ values => (.ok (), { state with values := values })
    | .error message values => (.error (.other message), { state with values := values })

def nothing : StepMethod F (TargetValues R) := fun state => (.ok (), state)

def mountTargetStep : InstallStep F (TargetValues R) where
  id := "mount-target"
  title := "Mount target filesystems"
  failurePolicy := .fatal
  progressWeight := 3
  destructive := false
  preflight := methodOf fun plan => MountTargetStep.preflight host target plan.storage.filesystem
  execute := methodOf fun plan => MountTargetStep.execute host target plan.storage.filesystem
  verify := methodOf fun _ => MountTargetStep.verify host target
  cleanup := methodOf fun _ => MountTargetStep.cleanup host target

def enterChrootStep : InstallStep F (TargetValues R) where
  id := "enter-chroot"
  title := "Prepare isolated target environment"
  failurePolicy := .fatal
  progressWeight := 2
  destructive := false
  preflight := methodOf fun _ => EnterChrootStep.preflight host target
  execute := methodOf fun _ => EnterChrootStep.execute host
  verify := methodOf fun _ => EnterChrootStep.verify host
  cleanup := methodOf fun _ => leaveChroot host false

def leaveChrootStep : InstallStep F (TargetValues R) where
  id := "leave-chroot"
  title := "Close isolated target environment"
  failurePolicy := .fatal
  progressWeight := 1
  destructive := false
  preflight := nothing
  execute := methodOf fun _ => leaveChroot host true
  verify := methodOf fun _ => LeaveChrootStep.verify
  cleanup := methodOf fun _ => leaveChroot host false

def unmountTargetStep : InstallStep F (TargetValues R) where
  id := "unmount-target"
  title := "Unmount target filesystems"
  failurePolicy := .fatal
  progressWeight := 1
  destructive := false
  preflight := methodOf fun _ => UnmountTargetStep.preflight host
  execute := methodOf fun _ => UnmountTargetStep.execute host
  verify := methodOf fun _ => UnmountTargetStep.verify
  cleanup := nothing

end Steps

end Installer
