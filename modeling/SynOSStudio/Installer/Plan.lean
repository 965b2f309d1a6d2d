import SynOSStudio.Installer.StorageGraph

/-!
# The installation plan

The records of the plan, `to_dict` and `from_dict`. A field that `from_dict` takes as it is
holds whatever value the document has there.
-/

namespace Installer

open StrictDocuments

/-! ## Enumerations -/

inductive Architecture where
  | amd64
  | arm64
  deriving DecidableEq

def Architecture.value : Architecture → String
  | .amd64 => "amd64"
  | .arm64 => "arm64"

def architecture : StrEnum Architecture where
  name := "Architecture"
  members := [.amd64, .arm64]
  value := Architecture.value
  found a := by cases a <;> decide +kernel

inductive Firmware where
  | uefi
  | bios
  deriving DecidableEq

def Firmware.value : Firmware → String
  | .uefi => "uefi"
  | .bios => "bios"

def firmware : StrEnum Firmware where
  name := "Firmware"
  members := [.uefi, .bios]
  value := Firmware.value
  found a := by cases a <;> decide +kernel

inductive SecureBoot where
  | enabled
  | disabled
  | unsupported
  | notApplicable
  deriving DecidableEq

def SecureBoot.value : SecureBoot → String
  | .enabled => "enabled"
  | .disabled => "disabled"
  | .unsupported => "unsupported"
  | .notApplicable => "not-applicable"

def secureBoot : StrEnum SecureBoot where
  name := "SecureBoot"
  members := [.enabled, .disabled, .unsupported, .notApplicable]
  value := SecureBoot.value
  found a := by cases a <;> decide +kernel

inductive InstallMode where
  | eraseDisk
  | guidedCoexistence
  | manual
  deriving DecidableEq

def InstallMode.value : InstallMode → String
  | .eraseDisk => "erase-disk"
  | .guidedCoexistence => "guided-coexistence"
  | .manual => "manual"

def installMode : StrEnum InstallMode where
  name := "InstallMode"
  members := [.eraseDisk, .guidedCoexistence, .manual]
  value := InstallMode.value
  found a := by cases a <;> decide +kernel

inductive Filesystem where
  | btrfs
  | ext4
  | xfs
  | f2fs
  deriving DecidableEq

def Filesystem.value : Filesystem → String
  | .btrfs => "btrfs"
  | .ext4 => "ext4"
  | .xfs => "xfs"
  | .f2fs => "f2fs"

def rootFilesystem : StrEnum Filesystem where
  name := "Filesystem"
  members := [.btrfs, .ext4, .xfs, .f2fs]
  value := Filesystem.value
  found a := by cases a <;> decide +kernel

inductive MokPasswordPolicy where
  | synosDefault
  | notApplicable
  deriving DecidableEq

def MokPasswordPolicy.value : MokPasswordPolicy → String
  | .synosDefault => "synos-default"
  | .notApplicable => "not-applicable"

def mokPasswordPolicy : StrEnum MokPasswordPolicy where
  name := "MokPasswordPolicy"
  members := [.synosDefault, .notApplicable]
  value := MokPasswordPolicy.value
  found a := by cases a <;> decide +kernel

inductive AuthenticationMode where
  | password
  | passwordlessShared
  deriving DecidableEq

def AuthenticationMode.value : AuthenticationMode → String
  | .password => "password"
  | .passwordlessShared => "passwordless-shared"

def authenticationMode : StrEnum AuthenticationMode where
  name := "AuthenticationMode"
  members := [.password, .passwordlessShared]
  value := AuthenticationMode.value
  found a := by cases a <;> decide +kernel

/-! ## Records -/

section Records

variable (F : Type)

structure SourceSpec where
  imagePath : Json F

structure DiskIdentity where
  path : Json F
  stableId : Json F
  expectedSizeBytes : Json F
  model : Json F
  serial : Json F

structure StorageSpec where
  mode : InstallMode
  disk : DiskIdentity F
  filesystem : Filesystem
  espSizeMib : Json F
  swapSizeMib : Json F
  graph : Option StorageGraph

structure PlatformSpec where
  architecture : Architecture
  firmware : Firmware
  secureBoot : SecureBoot

structure IdentitySpec where
  hostname : Json F
  username : Json F
  fullName : Json F
  authentication : AuthenticationMode
  passwordHash : Json F

structure AccessSpec where
  sudoWithoutPassword : Json F
  automaticLogin : Json F
  sshPasswordLogin : Json F

structure KeyboardSpec where
  layout : Json F
  variant : Json F

structure RegionalSpec where
  locale : Json F
  timezone : Json F
  keyboard : KeyboardSpec F
  inputMethods : List String

structure SwapSpec where
  zramEnabled : Json F
  zramRamPercent : Json F
  zramAlgorithm : Json F
  zramPriority : Json F
  diskPriority : Json F

structure BootSpec where
  installFallbackPath : Json F
  mokPasswordPolicy : MokPasswordPolicy

structure SoftwareSpec where
  installUpdates : Json F
  installThirdPartyDrivers : Json F
  installMultimediaCodecs : Json F

structure InstallPlan where
  schemaVersion : Json F
  source : SourceSpec F
  storage : StorageSpec F
  platform : PlatformSpec
  identity : IdentitySpec F
  access : AccessSpec F
  regional : RegionalSpec F
  software : SoftwareSpec F
  swap : SwapSpec F
  boot : BootSpec F

end Records

variable {F : Type}

/-! ## Writing -/

section Writing

/-- What `asdict` makes of the nested records, with the two members that `to_dict` sets. -/
def SourceSpec.asdict (source : SourceSpec F) : Written F :=
  .dict [("image_path", .plain source.imagePath)]

def DiskIdentity.asdict (disk : DiskIdentity F) : Written F :=
  .dict [("path", .plain disk.path),
    ("stable_id", .plain disk.stableId),
    ("expected_size_bytes", .plain disk.expectedSizeBytes),
    ("model", .plain disk.model),
    ("serial", .plain disk.serial)]

def StorageSpec.asdict (storage : StorageSpec F) : Written F :=
  .dict [("mode", .member (installMode.value storage.mode)),
    ("disk", storage.disk.asdict),
    ("filesystem", .member (rootFilesystem.value storage.filesystem)),
    ("esp_size_mib", .plain storage.espSizeMib),
    ("swap_size_mib", .plain storage.swapSizeMib),
    ("graph", .ofOption StorageGraph.toDict storage.graph)]

def PlatformSpec.asdict (platform : PlatformSpec) : Written F :=
  .dict [("architecture", .member (Installer.architecture.value platform.architecture)),
    ("firmware", .member (Installer.firmware.value platform.firmware)),
    ("secure_boot", .member (Installer.secureBoot.value platform.secureBoot))]

def IdentitySpec.asdict (identity : IdentitySpec F) : Written F :=
  .dict [("hostname", .plain identity.hostname),
    ("username", .plain identity.username),
    ("full_name", .plain identity.fullName),
    ("authentication", .member (authenticationMode.value identity.authentication)),
    ("password_hash", .plain identity.passwordHash)]

def AccessSpec.asdict (access : AccessSpec F) : Written F :=
  .dict [("sudo_without_password", .plain access.sudoWithoutPassword),
    ("automatic_login", .plain access.automaticLogin),
    ("ssh_password_login", .plain access.sshPasswordLogin)]

def KeyboardSpec.asdict (keyboard : KeyboardSpec F) : Written F :=
  .dict [("layout", .plain keyboard.layout), ("variant", .plain keyboard.variant)]

def RegionalSpec.asdict (regional : RegionalSpec F) : Written F :=
  .dict [("locale", .plain regional.locale),
    ("timezone", .plain regional.timezone),
    ("keyboard", regional.keyboard.asdict),
    ("input_methods", .list (regional.inputMethods.map .text))]

def SoftwareSpec.asdict (software : SoftwareSpec F) : Written F :=
  .dict [("install_updates", .plain software.installUpdates),
    ("install_third_party_drivers", .plain software.installThirdPartyDrivers),
    ("install_multimedia_codecs", .plain software.installMultimediaCodecs)]

def SwapSpec.asdict (swap : SwapSpec F) : Written F :=
  .dict [("zram_enabled", .plain swap.zramEnabled),
    ("zram_ram_percent", .plain swap.zramRamPercent),
    ("zram_algorithm", .plain swap.zramAlgorithm),
    ("zram_priority", .plain swap.zramPriority),
    ("disk_priority", .plain swap.diskPriority)]

def BootSpec.asdict (boot : BootSpec F) : Written F :=
  .dict [("install_fallback_path", .plain boot.installFallbackPath),
    ("mok_password_policy", .member (Installer.mokPasswordPolicy.value boot.mokPasswordPolicy))]

def InstallPlan.toDict (plan : InstallPlan F) : Written F :=
  .dict [("schema_version", .plain plan.schemaVersion),
    ("source", plan.source.asdict),
    ("storage", plan.storage.asdict),
    ("platform", plan.platform.asdict),
    ("identity", plan.identity.asdict),
    ("access", plan.access.asdict),
    ("regional", plan.regional.asdict),
    ("software", plan.software.asdict),
    ("swap", plan.swap.asdict),
    ("boot", plan.boot.asdict)]

end Writing

/-! ## Reading -/

section Reading

def readSource (value : Json F) : Except DecodeError (SourceSpec F) := do
  let data ← exactly "source" ["image_path"] value
  return ⟨data "image_path"⟩

def readDisk (value : Json F) : Except DecodeError (DiskIdentity F) := do
  let data ← exactly "storage.disk"
    ["path", "stable_id", "expected_size_bytes", "model", "serial"] value
  return {
    path := data "path"
    stableId := data "stable_id"
    expectedSizeBytes := data "expected_size_bytes"
    model := data "model"
    serial := data "serial" }

def readStorage (value : Json F) : Except DecodeError (StorageSpec F) := do
  let data ← exactly "storage"
    ["mode", "disk", "filesystem", "esp_size_mib", "swap_size_mib", "graph"] value
  let disk ← readDisk (data "disk")
  return {
    mode := ← installMode.ofValue (data "mode")
    disk := disk
    filesystem := ← rootFilesystem.ofValue (data "filesystem")
    espSizeMib := data "esp_size_mib"
    swapSizeMib := data "swap_size_mib"
    graph := some (← StorageGraph.fromDict (data "graph")) }

def readPlatform (value : Json F) : Except DecodeError PlatformSpec := do
  let data ← exactly "platform" ["architecture", "firmware", "secure_boot"] value
  return {
    architecture := ← architecture.ofValue (data "architecture")
    firmware := ← firmware.ofValue (data "firmware")
    secureBoot := ← secureBoot.ofValue (data "secure_boot") }

def readIdentity (value : Json F) : Except DecodeError (IdentitySpec F) := do
  let data ← exactly "identity"
    ["hostname", "username", "full_name", "authentication", "password_hash"] value
  return {
    hostname := data "hostname"
    username := data "username"
    fullName := data "full_name"
    authentication := ← authenticationMode.ofValue (data "authentication")
    passwordHash := data "password_hash" }

def readAccess (value : Json F) : Except DecodeError (AccessSpec F) := do
  let data ← exactly "access"
    ["sudo_without_password", "automatic_login", "ssh_password_login"] value
  return {
    sudoWithoutPassword := data "sudo_without_password"
    automaticLogin := data "automatic_login"
    sshPasswordLogin := data "ssh_password_login" }

def readKeyboard (value : Json F) : Except DecodeError (KeyboardSpec F) := do
  let data ← exactly "regional.keyboard" ["layout", "variant"] value
  return ⟨data "layout", data "variant"⟩

/-- The text of an item, if it is one. -/
def textOf : Json F → Option String
  | .text s => some s
  | _ => none

def readInputMethods (value : Json F) : Except DecodeError (List String) :=
  let refused := .error (.typeError "regional.input_methods must be a list of strings")
  match value with
  | .array items =>
    match items.mapM textOf with
    | some methods => .ok methods
    | none => refused
  | _ => refused

def readRegional (value : Json F) : Except DecodeError (RegionalSpec F) := do
  let data ← exactly "regional" ["locale", "timezone", "keyboard", "input_methods"] value
  let keyboard ← readKeyboard (data "keyboard")
  let inputMethods ← readInputMethods (data "input_methods")
  return {
    locale := data "locale"
    timezone := data "timezone"
    keyboard := keyboard
    inputMethods := inputMethods }

def readSoftware (value : Json F) : Except DecodeError (SoftwareSpec F) := do
  let data ← exactly "software"
    ["install_updates", "install_third_party_drivers", "install_multimedia_codecs"] value
  return {
    installUpdates := data "install_updates"
    installThirdPartyDrivers := data "install_third_party_drivers"
    installMultimediaCodecs := data "install_multimedia_codecs" }

def readSwap (value : Json F) : Except DecodeError (SwapSpec F) := do
  let data ← exactly "swap"
    ["zram_enabled", "zram_ram_percent", "zram_algorithm", "zram_priority", "disk_priority"] value
  return {
    zramEnabled := data "zram_enabled"
    zramRamPercent := data "zram_ram_percent"
    zramAlgorithm := data "zram_algorithm"
    zramPriority := data "zram_priority"
    diskPriority := data "disk_priority" }

def readBoot (value : Json F) : Except DecodeError (BootSpec F) := do
  let data ← exactly "boot" ["install_fallback_path", "mok_password_policy"] value
  return {
    installFallbackPath := data "install_fallback_path"
    mokPasswordPolicy := ← mokPasswordPolicy.ofValue (data "mok_password_policy") }

/-- `from_dict`, with the decoding of each nested record on its own. -/
def InstallPlan.fromDict (value : Json F) : Except DecodeError (InstallPlan F) := do
  let root ← exactly "plan"
    ["schema_version", "source", "storage", "platform", "identity", "access", "regional",
      "software", "swap", "boot"] value
  return {
    source := ← readSource (root "source")
    storage := ← readStorage (root "storage")
    platform := ← readPlatform (root "platform")
    identity := ← readIdentity (root "identity")
    access := ← readAccess (root "access")
    regional := ← readRegional (root "regional")
    software := ← readSoftware (root "software")
    swap := ← readSwap (root "swap")
    boot := ← readBoot (root "boot")
    schemaVersion := root "schema_version" }

end Reading

end Installer
