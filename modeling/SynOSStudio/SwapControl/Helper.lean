import SynOSStudio.ByteStreams.Lines
import SynOSStudio.ByteStreams.Utf8

/-!
# The swap control helper

What the helper does to the swap file and to the list of file systems. The calls of one command
are numbered, and any of them may fail; every other command succeeds.
-/

namespace SwapControl

open ByteStreams

abbrev Bytes := List UInt8

def GIB : ℕ := 1024 * 1024 * 1024

def ROOT_RESERVE_BYTES : ℕ := 20 * 1024 * 1024 * 1024

/-! ## The machine -/

/-- `/swapfile`, `/swapfile.synos-new` and `/swapfile.synos-old`. -/
inductive Path
  | swapfile
  | temporary
  | backup
  deriving DecidableEq

/-- A file with its size, its allocated blocks of 512 bytes, and whether it is swapped on. -/
structure File where
  size : ℕ
  blocks : ℕ
  active : Bool
  deriving DecidableEq

inductive Node
  | regular (file : File)
  | symlink (dangling : Bool)
  | special
  deriving DecidableEq

structure Machine where
  nodes : Path → Option Node
  fstab : Bytes
  fstabTemporary : Option Bytes

/-- What `findmnt` and `df` say of the root file system. -/
structure Root where
  filesystem : String
  availableBytes : ℕ

inductive Command
  | fallocate
  | chmod
  | mkswap
  | swapon
  | swapoff
  | mv
  deriving DecidableEq

/-- The calls of one command that fail, and the size of the file that a failing `fallocate`
leaves, if it leaves one. -/
structure Fault where
  command : Command
  fails : ℕ → Bool
  leaves : ℕ → Option ℕ

/-- The machine with the number of calls of the failing command so far. -/
structure Process extends Machine where
  calls : ℕ

structure Exit where
  code : ℕ
  message : String
  deriving DecidableEq

/-- The shell stops at an unguarded command that fails. -/
def errexit : Exit := ⟨1, ""⟩

/-! ## Tests -/

/-- `test -L` -/
def isSymlink : Option Node → Bool
  | some (.symlink _) => true
  | _ => false

/-- `test -e` -/
def pathExists : Option Node → Bool
  | none => false
  | some (.symlink dangling) => !dangling
  | some _ => true

/-- `test -f`, asked only of what is no symbolic link. -/
def isFile : Option Node → Bool
  | some (.regular _) => true
  | _ => false

def isActive : Option Node → Bool
  | some (.regular file) => file.active
  | _ => false

/-- `stat --format=%s` -/
def sizeOf : Option Node → ℕ
  | some (.regular file) => file.size
  | _ => 0

/-- `stat --format=%b` -/
def blocksOf : Option Node → ℕ
  | some (.regular file) => file.blocks
  | _ => 0

/-! ## Commands -/

section Commands

variable (fault : Fault) (path destination : Path) (p : Process)

def call (command : Command) : Bool × Process :=
  if command = fault.command then
    (!fault.fails p.calls, { p with calls := p.calls + 1 })
  else
    (true, p)

def Process.put (node : Option Node) : Process :=
  { p with nodes := Function.update p.nodes path node }

def Process.rm : Process :=
  p.put path none

def Node.setActive (active : Bool) : Node → Node
  | .regular file => .regular { file with active := active }
  | node => node

/-- A file whose blocks are allocated in full, on blocks of 4096 bytes. -/
def allocated (size : ℕ) : Node :=
  .regular ⟨size, (size + 4095) / 4096 * 8, false⟩

def fallocate (length : ℕ) : Bool × Process :=
  match call fault p .fallocate with
  | (true, p) => (true, p.put path (some (allocated length)))
  | (false, q) => (false, q.put path ((fault.leaves p.calls).map allocated))

def swapon : Bool × Process :=
  match call fault p .swapon with
  | (true, p) => (true, p.put path ((p.nodes path).map (Node.setActive true)))
  | (false, p) => (false, p)

def swapoff : Bool × Process :=
  match call fault p .swapoff with
  | (true, p) => (true, p.put path ((p.nodes path).map (Node.setActive false)))
  | (false, p) => (false, p)

def mv : Bool × Process :=
  match call fault p .mv with
  | (true, p) => (true, (p.put destination (p.nodes path)).rm path)
  | (false, p) => (false, p)

/-- `swapon --show`, searched for the swap file. -/
def swapfileIsActive : Bool × Process :=
  match call fault p .swapon with
  | (true, p) => (isActive (p.nodes .swapfile), p)
  | (false, p) => (false, p)

end Commands

/-! ## The list of file systems -/

/-- Blanks between fields. -/
def isBlank (byte : UInt8) : Bool :=
  byte = 32 || byte = 9 || byte = 10

/-- `[[:space:]]` -/
def isSpace (byte : UInt8) : Bool :=
  byte = 32 || 9 ≤ byte && byte ≤ 13

/-- `$1` -/
def firstField (line : Bytes) : Bytes :=
  (line.dropWhile isBlank).takeWhile fun byte => !isBlank byte

def SWAPFILE : Bytes := utf8Bytes "/swapfile".toList

def ENTRY : Bytes := utf8Bytes "/swapfile none swap sw,pri=10 0 0\n".toList

def isEntry (line : Bytes) : Bool :=
  firstField line = SWAPFILE && !((line.dropWhile isSpace).head? = some 35)

def Listed (fstab : Bytes) : Prop :=
  ∃ line ∈ linesOf 10 fstab, isEntry line = true

instance (fstab : Bytes) : Decidable (Listed fstab) :=
  inferInstanceAs (Decidable (∃ line ∈ linesOf 10 fstab, isEntry line = true))

def ensureSwapfileFstabEntry (m : Machine) : Machine :=
  if Listed m.fstab then m else { m with fstab := m.fstab ++ ENTRY }

/-- A line as `awk` prints it. -/
def printed (line : Bytes) : Bytes :=
  if line.getLast? = some 10 then line else line ++ [10]

/-- The copy stays behind when one of the commands on it fails. -/
def removeSwapfileFstabEntry (fault : Fault) (p : Process) : Option Exit × Process :=
  let kept := ((linesOf 10 p.fstab).filter fun line => firstField line ≠ SWAPFILE).map printed
  let p := { p with fstabTemporary := some kept.flatten }
  match call fault p .chmod with
  | (false, p) => (some errexit, p)
  | (true, p) =>
    match call fault p .mv with
    | (false, p) => (some errexit, p)
    | (true, p) => (none, { p with fstab := kept.flatten, fstabTemporary := none })

/-! ## Enabling, disabling and resizing -/

section Resizing

variable (fault : Fault) (p : Process)

def swapfileDisable : Option Exit × Process :=
  match swapfileIsActive fault p with
  | (false, p) => removeSwapfileFstabEntry fault p
  | (true, p) =>
    match swapoff fault .swapfile p with
    | (false, p) => (some errexit, p)
    | (true, p) => removeSwapfileFstabEntry fault p

def createSwapfile (path : Path) (length : ℕ) : Bool × Process :=
  match fallocate fault path (p.rm path) length with
  | (false, p) => (false, p)
  | (true, p) =>
    match call fault p .chmod with
    | (false, p) => (false, p)
    | (true, p) => call fault p .mkswap

/-- The replacement is built and validated before the old file is touched. -/
def replaceSwapfile (length : ℕ) : Option Exit × Process :=
  match createSwapfile fault p .temporary length with
  | (false, p) => (some errexit, p)
  | (true, p) =>
    match swapfileIsActive fault p with
    | (wasActive, p) =>
      match if wasActive then swapoff fault .swapfile p else (true, p) with
      | (false, p) =>
        (some ⟨1, "The existing swapfile could not be disabled; no files were changed"⟩,
          p.rm .temporary)
      | (true, p) =>
        match if pathExists (p.nodes .swapfile) then mv fault .swapfile .backup p else (true, p) with
        | (false, p) => (some errexit, p)
        | (true, p) =>
          match mv fault .temporary .swapfile p with
          | (false, p) => (some errexit, p)
          | (true, p) =>
            match swapon fault .swapfile p with
            | (true, p) => (none, p.rm .backup)
            | (false, p) => restoreBackup wasActive (p.rm .swapfile)
where
  restoreBackup (wasActive : Bool) (p : Process) : Option Exit × Process :=
    let failure : Exit :=
      ⟨1, "The replacement swapfile could not be activated; the previous file was restored"⟩
    if pathExists (p.nodes .backup) then
      match mv fault .backup .swapfile p with
      | (false, p) => (some errexit, p)
      | (true, p) => (some failure, if wasActive then (swapon fault .swapfile p).2 else p)
    else
      (some failure, p)

def createAndActivate (length : ℕ) : Bool × Process :=
  match createSwapfile fault p .swapfile length with
  | (false, p) => (false, p)
  | (true, p) => swapon fault .swapfile p

/-- The old allocation is released before the new one is made. -/
def recreateSwapfile (length oldSizeBytes : ℕ) : Option Exit × Process :=
  match swapfileIsActive fault p with
  | (wasActive, p) =>
    match if wasActive then swapoff fault .swapfile p else (true, p) with
    | (false, p) =>
      (some ⟨1, "The existing swapfile could not be disabled; no files were changed"⟩, p)
    | (true, p) =>
      match createAndActivate fault (p.rm .swapfile) length with
      | (true, p) => (none, p)
      | (false, p) =>
        (some ⟨1, "The replacement swapfile could not be activated; " ++
          "the previous size was recreated"⟩,
          restoreSize wasActive ((swapoff fault .swapfile p).2.rm .swapfile))
where
  restoreSize (wasActive : Bool) (p : Process) : Process :=
    if 0 < oldSizeBytes then
      match createSwapfile fault p .swapfile oldSizeBytes with
      | (false, p) => p
      | (true, p) => if wasActive then (swapon fault .swapfile p).2 else p
    else
      p

end Resizing

/-- Why `/swapfile` itself cannot be resized. -/
def checkSwapfile (m : Machine) : Option Exit :=
  if isSymlink (m.nodes .swapfile) then
    some ⟨1, "/swapfile must not be a symbolic link"⟩
  else if pathExists (m.nodes .swapfile) && !isFile (m.nodes .swapfile) then
    some ⟨1, "/swapfile is not a regular file"⟩
  else
    none

def checkFilesystem (filesystem : String) : Option Exit :=
  if filesystem = "ext2" ∨ filesystem = "ext3" ∨ filesystem = "ext4" ∨ filesystem = "xfs" then
    none
  else if filesystem = "btrfs" then
    some ⟨1, "Additional swap files are disabled on the SynOS Btrfs snapshot root; " ++
      "use the installer-managed swap partition"⟩
  else
    some ⟨1, "Swapfile resizing is not supported on " ++ filesystem⟩

/-- The old file's blocks count as free, for they can be released. -/
def checkSpace (root : Root) (sizeGib : ℕ) (m : Machine) : Option Exit :=
  if root.availableBytes + blocksOf (m.nodes .swapfile) * 512 <
      sizeGib * GIB + ROOT_RESERVE_BYTES then
    some ⟨1, "Not enough free space for this size while preserving 20 GiB for the system"⟩
  else
    none

/-- A resize is refused while the files of another one are there. -/
def checkStale (m : Machine) : Option Exit :=
  if pathExists (m.nodes .temporary) then
    some ⟨1, "/swapfile.synos-new already exists; remove the stale temporary file first"⟩
  else if pathExists (m.nodes .backup) then
    some ⟨1, "/swapfile.synos-old already exists; inspect the previous recovery file first"⟩
  else
    none

/-- What both ways end with. -/
def finish (switched : Option Exit × Process) : Exit × Process :=
  match switched with
  | (some failure, p) => (failure, p)
  | (none, p) => (⟨0, ""⟩, { p with toMachine := ensureSwapfileFstabEntry p.toMachine })

/-- `swapfile-resize`, with a size that was read as a number. -/
def swapfileResize (fault : Fault) (root : Root) (sizeGib : ℕ) (p : Process) : Exit × Process :=
  if 64 < sizeGib then
    (⟨2, "Swapfile size cannot exceed 64 GiB"⟩, p)
  else if let some refusal := checkSwapfile p.toMachine then
    (refusal, p)
  else if sizeGib = 0 then
    match swapfileDisable fault p with
    | (some failure, p) => (failure, p)
    | (none, p) => (⟨0, ""⟩, p.rm .swapfile)
  else if let some refusal := checkFilesystem root.filesystem then
    (refusal, p)
  else if let some refusal := checkSpace root sizeGib p.toMachine then
    (refusal, p)
  else if let some refusal := checkStale p.toMachine then
    (refusal, p)
  else
    finish (
      if sizeGib * GIB + ROOT_RESERVE_BYTES ≤ root.availableBytes then
        replaceSwapfile fault p (sizeGib * GIB)
      else
        recreateSwapfile fault p (sizeGib * GIB) (sizeOf (p.nodes .swapfile)))

end SwapControl
