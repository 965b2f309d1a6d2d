import SynOSStudio.RecoveryEngine.Deployment

/-!
# The Btrfs volume

The volume as the recovery programs see it: the subvolumes at its top level by
name, and the snapshot below each deployment directory. A command either has its
whole effect or fails and changes nothing. A snapshot receives an identifier that
no subvolume of the volume has had before; a rename keeps the subvolume it moves.
-/

namespace RecoveryEngine

/-- A subvolume nested inside another one. -/
structure Descendant where
  path : List String
  isEmpty : Bool
  deriving DecidableEq, Repr

structure Subvolume where
  subvolId : ℕ
  uuid : Uuid
  parentUuid : Option Uuid
  readOnly : Bool
  descendants : List Descendant
  deriving DecidableEq

structure Disk where
  /-- The subvolumes at the top level. -/
  top : String → Option Subvolume
  /-- The subvolume `deployments/<id>/root`. -/
  snapshots : DeploymentId → Option Subvolume
  /-- Whether the directory `deployments/<id>` exists. -/
  directories : DeploymentId → Bool
  nextSubvolId : ℕ

def rootName : String := "@root"

inductive DiskOp where
  | inspectTopLevel
  | realDirectory (name : String)
  | snapshotDeployment (source : DeploymentId) (destination : String)
  | rename (source destination : String)
  | delete (name : String)
  | sync
  | deploymentRoot (id : DeploymentId)
  | show (id : DeploymentId)
  | isReadOnly (id : DeploymentId)
  | rootParent
  | listDescendants (name : String)
  | inspectDescendant (name : String) (path : List String)
  | deleteDescendant (name : String) (path : List String)
  | mount
  | unmount
  | createDirectory (id : DeploymentId)
  | removeDirectory (id : DeploymentId)
  | snapshotSystem (id : DeploymentId)
  | deleteSnapshot (id : DeploymentId)
  | hashFile (id : DeploymentId) (path : String)
  | hashOptionalFile (id : DeploymentId) (path : String)

namespace DiskOp

/-- What a command reports when it succeeds. -/
def Result : DiskOp → Type
  | .realDirectory _ | .deploymentRoot _ | .isReadOnly _ => Bool
  | .show _ => String × Option String
  | .rootParent => Option String
  | .listDescendants _ => List (List String)
  | .inspectDescendant _ _ => Option Bool
  | .hashFile _ _ => String
  | .hashOptionalFile _ _ => Option String
  | _ => Unit

end DiskOp

namespace Disk

/-- The writable or read-only snapshot that the next command creates. -/
def snapshotOf (disk : Disk) (source : Subvolume) (uuid : Uuid) (readOnly : Bool) : Subvolume where
  subvolId := disk.nextSubvolId
  uuid := uuid
  parentUuid := some source.uuid
  readOnly := readOnly
  descendants := []

def setTop (disk : Disk) (name : String) (value : Option Subvolume) : Disk :=
  { disk with top := Function.update disk.top name value }

def setSnapshot (disk : Disk) (id : DeploymentId) (value : Option Subvolume) : Disk :=
  { disk with snapshots := Function.update disk.snapshots id value }

def setDirectory (disk : Disk) (id : DeploymentId) (value : Bool) : Disk :=
  { disk with directories := Function.update disk.directories id value }

def withDescendants (disk : Disk) (name : String) (f : List Descendant → List Descendant) : Disk :=
  disk.setTop name ((disk.top name).map fun v => { v with descendants := f v.descendants })

def noSuchFile : String := "No such file or directory (os error 2)"
def fileExists : String := "File exists (os error 17)"
def notEmpty : String := "Directory not empty (os error 39)"

/-- The effect of a command that the environment lets succeed. `uuid` and `text` are
the values the environment supplies: the UUID of a new subvolume, a file digest. -/
def effect (uuid : Uuid) (text : String) :
    (op : DiskOp) → Disk → Except String op.Result × Disk
  | .inspectTopLevel, disk => (.ok (), disk)
  | .realDirectory name, disk => (.ok (disk.top name).isSome, disk)
  | .snapshotDeployment source destination, disk =>
    match disk.snapshots source, disk.top destination with
    | some v, none =>
      (.ok (), { disk.setTop destination (some (disk.snapshotOf v uuid false)) with
        nextSubvolId := disk.nextSubvolId + 1 })
    | none, _ => (.error noSuchFile, disk)
    | some _, some _ => (.error fileExists, disk)
  | .rename source destination, disk =>
    match disk.top source, disk.top destination with
    | some v, none => (.ok (), (disk.setTop source none).setTop destination (some v))
    | none, _ => (.error noSuchFile, disk)
    | some _, some _ => (.error notEmpty, disk)
  | .delete name, disk =>
    match disk.top name with
    | some _ => (.ok (), disk.setTop name none)
    | none => (.error noSuchFile, disk)
  | .sync, disk => (.ok (), disk)
  | .deploymentRoot id, disk => (.ok (disk.snapshots id).isSome, disk)
  | .show id, disk =>
    match disk.snapshots id with
    | some v => (.ok (v.uuid.hyphenated, v.parentUuid.map Uuid.hyphenated), disk)
    | none => (.error noSuchFile, disk)
  | .isReadOnly id, disk =>
    match disk.snapshots id with
    | some v => (.ok v.readOnly, disk)
    | none => (.error noSuchFile, disk)
  | .rootParent, disk =>
    match disk.top rootName with
    | some v => (.ok (v.parentUuid.map Uuid.hyphenated), disk)
    | none => (.error noSuchFile, disk)
  | .listDescendants name, disk =>
    match disk.top name with
    | some v => (.ok (v.descendants.map Descendant.path), disk)
    | none => (.error noSuchFile, disk)
  | .inspectDescendant name path, disk =>
    (.ok (((disk.top name).bind fun v => v.descendants.find? fun d => d.path == path).map
      Descendant.isEmpty), disk)
  | .deleteDescendant name path, disk =>
    (.ok (), disk.withDescendants name fun ds => ds.filter fun d => d.path != path)
  | .mount, disk => (.ok (), disk)
  | .unmount, disk => (.ok (), disk)
  | .createDirectory id, disk =>
    if disk.directories id then (.error fileExists, disk) else (.ok (), disk.setDirectory id true)
  | .removeDirectory id, disk =>
    if (disk.snapshots id).isSome then (.error notEmpty, disk)
    else (.ok (), disk.setDirectory id false)
  | .snapshotSystem id, disk =>
    match disk.top rootName, disk.snapshots id with
    | some v, none =>
      (.ok (), { disk.setSnapshot id (some (disk.snapshotOf v uuid true)) with
        nextSubvolId := disk.nextSubvolId + 1 })
    | none, _ => (.error noSuchFile, disk)
    | some _, some _ => (.error fileExists, disk)
  | .deleteSnapshot id, disk =>
    match disk.snapshots id with
    | some _ => (.ok (), disk.setSnapshot id none)
    | none => (.error noSuchFile, disk)
  | .hashFile _ _, disk => (.ok text, disk)
  | .hashOptionalFile _ _, disk => (.ok (if text = "" then none else some text), disk)

@[simp] theorem setTop_top (disk : Disk) (name : String) (value : Option Subvolume) :
    (disk.setTop name value).top = Function.update disk.top name value := rfl

@[simp] theorem setTop_snapshots (disk : Disk) (name : String) (value : Option Subvolume) :
    (disk.setTop name value).snapshots = disk.snapshots := rfl

@[simp] theorem setTop_directories (disk : Disk) (name : String) (value : Option Subvolume) :
    (disk.setTop name value).directories = disk.directories := rfl

@[simp] theorem setTop_nextSubvolId (disk : Disk) (name : String) (value : Option Subvolume) :
    (disk.setTop name value).nextSubvolId = disk.nextSubvolId := rfl

@[simp] theorem setSnapshot_top (disk : Disk) (id : DeploymentId) (value : Option Subvolume) :
    (disk.setSnapshot id value).top = disk.top := rfl

@[simp] theorem setSnapshot_snapshots (disk : Disk) (id : DeploymentId)
    (value : Option Subvolume) :
    (disk.setSnapshot id value).snapshots = Function.update disk.snapshots id value := rfl

@[simp] theorem setDirectory_snapshots (disk : Disk) (id : DeploymentId) (value : Bool) :
    (disk.setDirectory id value).snapshots = disk.snapshots := rfl

@[simp] theorem setDirectory_directories (disk : Disk) (id : DeploymentId) (value : Bool) :
    (disk.setDirectory id value).directories = Function.update disk.directories id value := rfl

end Disk

end RecoveryEngine
