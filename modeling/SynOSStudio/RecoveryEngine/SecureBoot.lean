import Mathlib.Data.List.Lex
import Mathlib.Data.List.Sort
import SynOSStudio.RecoveryEngine.Deployment

/-!
# The Secure Boot check of a restore target

The trust that the firmware enforces at boot, checked before a restore is scheduled: what the
toolkit reports, the signature of the kernel, and the keys of the DKMS modules in a tree of any
shape.
-/

namespace RecoveryEngine.SecureBoot

def maxDkmsModules : ℕ := 4096

inductive SecureBootErrorCode where
  | inspectionFailed | invalidKernel | missingTrust | certificateChanged | untrustedModule
  | unsafeFilesystem
  deriving DecidableEq, Repr

structure SecureBootError where
  code : SecureBootErrorCode
  message : String
  deriving DecidableEq, Repr

abbrev FileName := List UInt8

abbrev FilePath := List FileName

def encode (s : String) : FileName :=
  s.toUTF8.toList

inductive ToolkitSecureBootStatus where
  | enabled | disabled | unsupported | unknown
  deriving DecidableEq, Repr

structure ToolkitSecureBootState where
  enabled : Bool
  status : ToolkitSecureBootStatus
  keyPresent : Bool
  certificatePresent : Bool
  enrolled : Bool
  certificateSerial : Option String

structure ToolkitStatus where
  schema : ℕ
  secureBoot : ToolkitSecureBootState

/-- What the three programs answer; the toolkit's output is given as it is deserialized. -/
structure Tools where
  status : Except SecureBootError (Except String ToolkitStatus)
  list : FilePath → Except SecureBootError String
  sigKey : FilePath → Except SecureBootError String

structure FileMetadata where
  isFile : Bool
  nlink : ℕ

/-- A regular file outside of the tree: its metadata, and its content when it is opened and read. -/
structure PlainFile where
  metadata : Except String FileMetadata
  content : Except String (Except String (List UInt8))

/-- The kind of a directory entry that is not a directory. -/
inductive EntryKind where
  | file | symlink | special
  | uninspectable (error : String)
  deriving DecidableEq

/-- What the reading of a directory yields, entry by entry, with all that is below it. -/
inductive Listing where
  | nil
  | failed (error : String)
  | entry (name : FileName) (kind : EntryKind) (rest : Listing)
  | directory (name : FileName) (inner : Listing) (rest : Listing)
  | unreadable (name : FileName) (error : String) (rest : Listing)

/-- What is at `updates/dkms`. -/
inductive DkmsRoot where
  | missing
  | uninspectable (error : String)
  | notDirectory
  | unreadable (error : String)
  | directory (listing : Listing)

/-- The snapshot as the check finds it. -/
structure Snapshot where
  root : FilePath
  kernel : PlainFile
  dkms : DkmsRoot

section Modules

variable (display : FilePath → String)

def fileName (path : FilePath) : FileName :=
  path.getLast?.getD []

/-- `to_str` of a name, and the empty text where it is none. -/
def fileNameText (name : FileName) : FileName :=
  if (ByteArray.mk name.toArray).validateUTF8 then name else []

def isKernelModule (path : FilePath) : Bool :=
  let name := fileNameText (fileName path)
  (encode ".ko").isSuffixOf name || (encode ".ko.xz").isSuffixOf name ||
    (encode ".ko.zst").isSuffixOf name

def unsafePath (message : String) : SecureBootError :=
  ⟨.unsafeFilesystem, message⟩

/-- A directory that waits to be read: its path, and what reading it will yield. -/
abbrev Pending := FilePath × Except String Listing

/-- The entries of one directory, read in their order. -/
def readEntries (directory : FilePath) :
    Listing → List Pending → List FilePath →
      Except SecureBootError (List Pending × List FilePath)
  | .nil, pending, modules => .ok (pending, modules)
  | .failed error, _, _ =>
    .error (unsafePath s!"Could not inspect DKMS directory entry: {error}")
  | .entry name kind rest, pending, modules =>
    let path := directory ++ [name]
    match kind with
    | .uninspectable error =>
      .error (unsafePath s!"Could not inspect {display path}: {error}")
    | .symlink => .error (unsafePath s!"DKMS path {display path} is a symbolic link")
    | .special => .error (unsafePath s!"DKMS path {display path} is not a regular file")
    | .file =>
      if isKernelModule path then
        if (modules ++ [path]).length > maxDkmsModules then
          .error (unsafePath "System snapshot contains an excessive number of DKMS modules")
        else readEntries directory rest pending (modules ++ [path])
      else readEntries directory rest pending modules
  | .directory name inner rest, pending, modules =>
    readEntries directory rest ((directory ++ [name], .ok inner) :: pending) modules
  | .unreadable name error rest, pending, modules =>
    readEntries directory rest ((directory ++ [name], .error error) :: pending) modules

/-- The loop over the waiting directories; every turn takes one of them off. -/
def readPending : ℕ → List Pending → List FilePath → Except SecureBootError (List FilePath)
  | _, [], modules => .ok modules
  | 0, _ :: _, modules => .ok modules
  | fuel + 1, (path, listing) :: pending, modules =>
    match listing with
    | .error error => .error (unsafePath s!"Could not read {display path}: {error}")
    | .ok listing => do
      let (pending, modules) ← readEntries display path listing pending modules
      readPending fuel pending modules

/-- The directories below a directory. -/
def Listing.directories : Listing → ℕ
  | .nil => 0
  | .failed _ => 0
  | .entry _ _ rest => rest.directories
  | .directory _ inner rest => 1 + inner.directories + rest.directories
  | .unreadable _ _ rest => 1 + rest.directories

def collectDkmsModules (root : FilePath) : DkmsRoot → Except SecureBootError (List FilePath)
  | .missing => .ok []
  | .uninspectable error =>
    .error (unsafePath s!"Could not inspect {display root}: {error}")
  | .notDirectory => .error (unsafePath s!"{display root} is not a real directory")
  | .unreadable error => readPending display 1 [(root, .error error)] []
  | .directory listing => do
    let modules ← readPending display (1 + listing.directories) [(root, .ok listing)] []
    return modules.insertionSort (· ≤ ·)

end Modules

section Verification

variable (display : FilePath → String) (sha256 : List UInt8 → String)

def ensureRegularFile (path : FilePath) (file : PlainFile) (description : String) :
    Except SecureBootError Unit :=
  match file.metadata with
  | .error error => .error (unsafePath s!"Could not inspect {description} {display path}: {error}")
  | .ok metadata =>
    if metadata.isFile && metadata.nlink == 1 then .ok ()
    else .error (unsafePath s!"{description} {display path} is not a private regular file")

def hashRegularFile (path : FilePath) (file : PlainFile) : Except SecureBootError String := do
  ensureRegularFile display path file "MOK certificate"
  match file.content with
  | .error error =>
    .error (unsafePath s!"Could not open MOK certificate {display path}: {error}")
  | .ok (.error error) =>
    .error (unsafePath s!"Could not read MOK certificate {display path}: {error}")
  | .ok (.ok content) => .ok (sha256 content)

def isAsciiHexdigit (c : Char) : Bool :=
  ('0' ≤ c && c ≤ '9') || ('a' ≤ c && c ≤ 'f') || ('A' ≤ c && c ≤ 'F')

def normalizeKey (value : String) : String :=
  String.ofList ((value.toList.filter isAsciiHexdigit).map Char.toLower)

def currentMokCertificate : FilePath :=
  ["var", "lib", "shim-signed", "mok", "MOK.der"].map encode

def kernelPath (root : FilePath) (kernelRelease : String) : FilePath :=
  root ++ [encode "boot", encode s!"vmlinuz-{kernelRelease}"]

def modulesRoot (root : FilePath) (kernelRelease : String) : FilePath :=
  root ++ [encode "lib", encode "modules", encode kernelRelease, encode "updates", encode "dkms"]

/-- The toolkit's report, refused unless it is understood and free of contradictions. -/
def toolkitStatus (tools : Tools) : Except SecureBootError ToolkitStatus := do
  match ← tools.status with
  | .error error =>
    .error ⟨.inspectionFailed, s!"Secure Boot toolkit returned invalid state: {error}"⟩
  | .ok status =>
    ensure (status.schema == 2)
      ⟨.inspectionFailed, s!"Unsupported Secure Boot toolkit schema {status.schema}"⟩
    ensure (status.secureBoot.enabled == (status.secureBoot.status == .enabled))
      ⟨.inspectionFailed, "Secure Boot toolkit returned contradictory state"⟩
    return status

/-- The loop over the collected modules. -/
def verifyModules (tools : Tools) (expectedKey : String) :
    List FilePath → Except SecureBootError Unit
  | [] => .ok ()
  | file :: files => do
    let signature ← tools.sigKey file
    ensure (normalizeKey signature == expectedKey) ⟨.untrustedModule,
      s!"DKMS module {display file} is not signed by the enrolled MOK"⟩
    verifyModules tools expectedKey files

/-- What an enabled Secure Boot requires for the modules. -/
def verifyTrust (tools : Tools) (state : ToolkitSecureBootState) (certificate : PlainFile)
    (record : DeploymentRecord) (modules : List FilePath) : Except SecureBootError Unit := do
  ensure (state.keyPresent && state.certificatePresent && state.enrolled) ⟨.missingTrust,
    "Secure Boot is enabled, but the MOK required by this system snapshot is not enrolled"⟩
  match record.mokCertificateSha256 with
  | none =>
    .error ⟨.missingTrust, "System snapshot contains DKMS modules but records no MOK certificate"⟩
  | some expectedMok =>
    let currentMok ← hashRegularFile display sha256 currentMokCertificate certificate
    ensure (currentMok == expectedMok) ⟨.certificateChanged,
      "The currently enrolled MOK differs from the certificate recorded by this system snapshot"⟩
    let expectedKey := normalizeKey (state.certificateSerial.getD "")
    ensure (expectedKey != "") ⟨.missingTrust, "The enrolled MOK has no usable key identifier"⟩
    verifyModules display tools expectedKey modules

/-- What an enabled Secure Boot requires of the snapshot. -/
def verifyEnabled (tools : Tools) (state : ToolkitSecureBootState) (certificate : PlainFile)
    (snapshot : Snapshot) (record : DeploymentRecord) : Except SecureBootError Unit :=
  match record.kernelRelease with
  | none => .error ⟨.invalidKernel, "System snapshot has no kernel release"⟩
  | some kernelRelease => do
    let kernel := kernelPath snapshot.root kernelRelease
    ensureRegularFile display kernel snapshot.kernel "recovery kernel"
    match tools.list kernel with
    | .error error =>
      .error ⟨.invalidKernel, s!"Recovery kernel is not Secure Boot signed: {error.message}"⟩
    | .ok _ =>
      let modules ← collectDkmsModules display (modulesRoot snapshot.root kernelRelease)
        snapshot.dkms
      if modules.isEmpty then return ()
      else verifyTrust display sha256 tools state certificate record modules

def verifyTarget (tools : Tools) (certificate : PlainFile) (snapshot : Snapshot)
    (record : DeploymentRecord) : Except SecureBootError Unit := do
  let status ← toolkitStatus tools
  match status.secureBoot.status with
  | .disabled => return ()
  | .unsupported => return ()
  | .unknown => .error ⟨.inspectionFailed, "Secure Boot state could not be determined"⟩
  | .enabled =>
    verifyEnabled display sha256 tools status.secureBoot certificate snapshot record

end Verification

end RecoveryEngine.SecureBoot
