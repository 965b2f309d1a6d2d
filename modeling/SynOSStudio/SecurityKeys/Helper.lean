import SynOSStudio.InterruptiblePrograms.Invariants

/-!
# The privileged helper of the security key manager

The enroll, remove and repair commands over the files they read and write. Every
`atomic_write` replaces one file at once, and a command may be killed between any two of
its file operations.
-/

namespace SecurityKeys

open InterruptiblePrograms

inductive Purpose where
  | gdm
  | sudo
  deriving DecidableEq

structure Enrollment where
  username : String
  serial : String
  purpose : Purpose
  credential : String
  deriving DecidableEq

structure Metadata where
  enrollments : List Enrollment
  passwordlessSudoUsers : List String

/-- The records of a mapping file; a user without a record has no credentials. -/
abbrev Mappings := String → List String

/-- The managed files. A PAM file is the list of its lines. -/
structure Host where
  metadata : Metadata
  mappings : Purpose → Mappings
  pam : Purpose → List String
  sudoState : List String

section Validation

def lowercase (c : Char) : Bool := 'a' ≤ c && c ≤ 'z'
def uppercase (c : Char) : Bool := 'A' ≤ c && c ≤ 'Z'
def digit (c : Char) : Bool := '0' ≤ c && c ≤ '9'

def USER_RE (username : String) : Bool :=
  match username.toList with
  | [] => false
  | first :: rest => (lowercase first || first == '_') && decide (rest.length ≤ 31) &&
      rest.all fun c => lowercase c || digit c || c == '_' || c == '-'

def SERIAL_RE (serial : String) : Bool :=
  let chars := serial.toList
  (decide (1 ≤ chars.length ∧ chars.length ≤ 12) && chars.all digit) ||
  ("usb-".toList.isPrefixOf chars &&
    decide (1 ≤ (chars.drop 4).length ∧ (chars.drop 4).length ≤ 64) &&
    (chars.drop 4).all fun c =>
      lowercase c || uppercase c || digit c || c == '.' || c == '_' || c == '-')

def credentialChar (c : Char) : Bool :=
  lowercase c || uppercase c || digit c || "_=/+.-".toList.contains c

def CREDENTIAL_RE (credential : String) : Bool :=
  let parts := credential.toList.splitOn ','
  decide (2 ≤ parts.length ∧ parts.length ≤ 4) && (parts.headD []) != [] &&
    parts.all fun part => part.all credentialChar

end Validation

/-- The file operations of the commands. -/
inductive HelperOp where
  | readMetadata
  | readMappings (purpose : Purpose)
  | readPam (purpose : Purpose)
  | writeMetadata (metadata : Metadata)
  | writeMappings (purpose : Purpose) (mappings : Mappings)
  | writePam (purpose : Purpose) (lines : List String)
  | writeSudoState (users : List String)

abbrev HelperOp.Answer : HelperOp → Type
  | .readMetadata => Metadata
  | .readMappings _ => Mappings
  | .readPam _ => List String
  | _ => Unit

def Host.handle : (op : HelperOp) → Unit → Host → op.Answer × Host
  | .readMetadata, _, h => (h.metadata, h)
  | .readMappings purpose, _, h => (h.mappings purpose, h)
  | .readPam purpose, _, h => (h.pam purpose, h)
  | .writeMetadata metadata, _, h => ((), { h with metadata := metadata })
  | .writeMappings purpose mappings, _, h =>
    ((), { h with mappings := Function.update h.mappings purpose mappings })
  | .writePam purpose lines, _, h => ((), { h with pam := Function.update h.pam purpose lines })
  | .writeSudoState users, _, h => ((), { h with sudoState := users })

/-- A command; its error is the message of `fail`. -/
abbrev HelperProg (α : Type) := Attempt HelperOp HelperOp.Answer String α

namespace HelperProg

def readMetadata : HelperProg Metadata := Attempt.call .readMetadata .ok
def readMappings (purpose : Purpose) : HelperProg Mappings :=
  Attempt.call (.readMappings purpose) .ok
def readPam (purpose : Purpose) : HelperProg (List String) := Attempt.call (.readPam purpose) .ok
def writeMetadata (metadata : Metadata) : HelperProg Unit :=
  Attempt.call (.writeMetadata metadata) .ok
def writeMappings (purpose : Purpose) (mappings : Mappings) : HelperProg Unit :=
  Attempt.call (.writeMappings purpose mappings) .ok
def writePam (purpose : Purpose) (lines : List String) : HelperProg Unit :=
  Attempt.call (.writePam purpose lines) .ok
def writeSudoState (users : List String) : HelperProg Unit :=
  Attempt.call (.writeSudoState users) .ok

end HelperProg

section Pam

def marker : Purpose → String
  | .gdm => "# Managed by synos-yubikey-manager (gdm)"
  | .sudo => "# Managed by synos-yubikey-manager (sudo)"

def mappingPath : Purpose → String
  | .gdm => "/etc/synos-yubikey-manager/u2f_mappings"
  | .sudo => "/etc/synos-yubikey-manager/sudo_u2f_mappings"

def pamLine (purpose : Purpose) : String :=
  "auth sufficient pam_u2f.so authfile=" ++ mappingPath purpose ++
    " origin=pam://synos appid=pam://synos cue"

/-- `text in line` -/
def occursIn (text line : String) : Bool :=
  line.toList.tails.any fun rest => text.toList.isPrefixOf rest

/-- The lines without the managed block; the flag is `skip_next`. -/
def unmanaged (purpose : Purpose) : Bool → List String → List String
  | _, [] => []
  | skipNext, line :: rest =>
    if line = marker purpose ∨ line = "# Managed by synos-yubikey-manager" then
      unmanaged purpose true rest
    else if skipNext && occursIn "pam_u2f.so" line then
      unmanaged purpose false rest
    else
      line :: unmanaged purpose false rest

/-- The managed block goes before the first line that names `common-auth`. -/
def withManaged (purpose : Purpose) (lines : List String) : List String :=
  let position := lines.findIdx (occursIn "common-auth")
  lines.take position ++ [marker purpose, pamLine purpose] ++ lines.drop position

/-- What a file reads as after its lines were joined and written with a final newline. -/
def writtenLines : List String → List String
  | [] => [""]
  | lines => lines

def ensurePam (purpose : Purpose) (enabled : Bool) : HelperProg Unit := do
  let lines ← HelperProg.readPam purpose
  let filtered := unmanaged purpose false lines
  HelperProg.writePam purpose
    (writtenLines (if enabled then withManaged purpose filtered else filtered))

end Pam

/-- What is the same for every command: the user database and the effective sudo policy. -/
structure System where
  userExists : String → Bool
  passwordlessUsers : List String

section Commands

variable (sys : System)

def validateCommon (username serial : String) : Except String Unit :=
  if !USER_RE username then .error "Invalid username."
  else if !sys.userExists username then .error "The selected user does not exist."
  else if !SERIAL_RE serial then .error "Invalid YubiKey serial number."
  else .ok ()

def addCredential (credentials : List String) (credential : String) : List String :=
  if credential ∈ credentials then credentials else credentials ++ [credential]

def Mappings.set (mappings : Mappings) (username : String) (credentials : List String) : Mappings :=
  Function.update mappings username credentials

def Enrollment.names (e : Enrollment) (purpose : Purpose) (username serial : String) : Bool :=
  e.username == username && e.serial == serial && e.purpose == purpose

def enrolledEntries (entries : List Enrollment) (purpose : Purpose) (username serial credential : String) :
    List Enrollment :=
  if entries.any fun e => e.names purpose username serial then entries
  else entries ++ [⟨username, serial, purpose, credential⟩]

def writeState (metadata : Metadata) (purpose : Purpose) (mappings : Mappings) :
    HelperProg Unit := do
  HelperProg.writeMappings purpose mappings
  HelperProg.writeMetadata metadata

/-- The end of `enroll` and `remove`. -/
def store (metadata : Metadata) (purpose : Purpose) (mappings : Mappings) : HelperProg Unit := do
  writeState metadata purpose mappings
  ensurePam purpose (metadata.enrollments.any fun e => e.purpose == purpose)

def enroll (purpose : Purpose) (username serial credential : String) : HelperProg Unit := do
  Attempt.ofExcept (validateCommon sys username serial)
  Attempt.ofExcept (if CREDENTIAL_RE credential then .ok () else .error "Invalid PAM credential.")
  let metadata ← HelperProg.readMetadata
  let mappings ← HelperProg.readMappings purpose
  store
    { metadata with
      enrollments := enrolledEntries metadata.enrollments purpose username serial credential }
    purpose (mappings.set username (addCredential (mappings username) credential))

def remove (purpose : Purpose) (username serial : String) : HelperProg Unit := do
  Attempt.ofExcept (validateCommon sys username serial)
  let metadata ← HelperProg.readMetadata
  let mappings ← HelperProg.readMappings purpose
  let removed := (metadata.enrollments.filter fun e => e.names purpose username serial).map
    Enrollment.credential
  store
    { metadata with
      enrollments := metadata.enrollments.filter fun e => !e.names purpose username serial }
    purpose (mappings.set username ((mappings username).filter fun c => !removed.contains c))

/-- The mapping that the entries of a purpose add up to. -/
def mappingsOf (entries : List Enrollment) (purpose : Purpose) : Mappings := fun username =>
  ((entries.filter fun e => e.purpose == purpose && e.username == username).map
    Enrollment.credential).foldl addCredential []

def validateEntries (entries : List Enrollment) (purpose : Purpose) : Except String Unit :=
  (entries.filter fun e => e.purpose == purpose).forM fun e => do
    validateCommon sys e.username e.serial
    if CREDENTIAL_RE e.credential then .ok ()
      else .error "The enrollment metadata contains an invalid PAM credential."

/-- One turn of the loop of `repair_integrations`. -/
def repairPurpose (entries : List Enrollment) (purpose : Purpose) : HelperProg Unit := do
  Attempt.ofExcept (validateEntries sys entries purpose)
  HelperProg.writeMappings purpose (mappingsOf entries purpose)
  ensurePam purpose (entries.any fun e => e.purpose == purpose)

def repairIntegrations : HelperProg Unit := do
  let metadata ← HelperProg.readMetadata
  repairPurpose sys metadata.enrollments .gdm
  repairPurpose sys metadata.enrollments .sudo
  HelperProg.writeSudoState sys.passwordlessUsers
  HelperProg.writeMetadata { metadata with passwordlessSudoUsers := sys.passwordlessUsers }

end Commands

end SecurityKeys
