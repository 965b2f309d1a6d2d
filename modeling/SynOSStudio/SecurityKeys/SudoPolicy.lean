import Mathlib
import SynOSStudio.SecurityKeys.Enrollments

/-!
# Sudo without a password

The `passwordless-sudo` command and the checks of `repair`, over the files of the security
keys and the drop-ins of `sudoers.d`. The text of a drop-in is the list of its lines.
-/

namespace SecurityKeys

open InterruptiblePrograms

section Rules

/-- The characters that `\s` matches. -/
def whitespace (c : Char) : Bool :=
  let n := c.toNat
  (9 ≤ n && n ≤ 13) || (28 ≤ n && n ≤ 32) || (0x2000 ≤ n && n ≤ 0x200a) ||
    [0x85, 0xa0, 0x1680, 0x2028, 0x2029, 0x202f, 0x205f, 0x3000].contains n

def userChar (c : Char) : Bool :=
  lowercase c || digit c || c == '_' || c == '-'

/-- `\s*` -/
def skipSpaces (text : List Char) : List Char :=
  text.dropWhile whitespace

/-- `\s+` -/
def someSpaces : List Char → Option (List Char)
  | [] => none
  | c :: rest => if whitespace c then some (skipSpaces rest) else none

def literal (expected text : List Char) : Option (List Char) :=
  if expected.isPrefixOf text then some (text.drop expected.length) else none

/-- The rest of a rule after the name of the user. -/
def grantsAll (text : List Char) : Option (List Char) := do
  let text ← someSpaces text
  let text ← literal "ALL".toList text
  let text ← literal "=".toList (skipSpaces text)
  let text ← literal "(ALL".toList (skipSpaces text)
  let text ← literal ")".toList ((literal ":ALL".toList text).getD text)
  let text ← someSpaces text
  let text ← literal "NOPASSWD".toList text
  let text ← literal ":".toList (skipSpaces text)
  let text ← literal "ALL".toList (skipSpaces text)
  return skipSpaces text

/-- The user whom a line of a drop-in frees of the password. -/
def ruleUser (line : String) : Option String :=
  let text := skipSpaces line.toList
  let username := String.ofList (text.takeWhile userChar)
  if USER_RE username && grantsAll (text.dropWhile userChar) == some [] then some username
  else none

/-- The line that the helper writes for a user. -/
def ruleLine (username : String) : String :=
  username ++ " ALL=(ALL:ALL) NOPASSWD: ALL"

end Rules

/-- An entry of `sudoers.d`; links and directories are not regular. -/
structure DropIn where
  regular : Bool
  lines : List String
  deriving DecidableEq

/-- The files that the helper reads and writes. -/
structure Machine where
  host : Host
  dropIns : Finmap fun _ : String => DropIn

/-- What no command changes: the accounts, `/etc/shadow` with the first two fields of its
lines, whether the path of the sudo state is safe, and the judgement of `visudo`. -/
structure Policy where
  userExists : String → Bool
  shadow : Option (List (String × String))
  sudoStateSafe : Bool
  visudo : (Finmap fun _ : String => DropIn) → Except String Unit

section Reading

def MANAGED_SUDOERS : String := "90-synos-passwordless-admin"

def Policy.hasUsablePassword (policy : Policy) (username : String) : Bool :=
  match policy.shadow with
  | none => false
  | some lines =>
    match lines.find? fun fields => fields.1 == username with
    | none => false
    | some fields =>
      match fields.2.toList with
      | [] => false
      | c :: _ => c != '!' && c != '*'

def sudoEnrolled (metadata : Metadata) (username : String) : Bool :=
  metadata.enrollments.any fun e => e.username == username && e.purpose == .sudo

/-- Names that the `@includedir` of sudo does not pass over. -/
def effectiveName (name : String) : Bool :=
  !name.toList.contains '.' && name.toList.getLast? != some '~'

/-- `require_safe_optional_file` on a drop-in -/
def Machine.safeOptional (m : Machine) (name : String) : Bool :=
  match m.dropIns.lookup name with
  | none => true
  | some file => file.regular

def sudoersDropInPaths (m : Machine) : List String :=
  (m.dropIns.keys.sort (· ≤ ·)).filter fun name => effectiveName name &&
    match m.dropIns.lookup name with
    | none => false
    | some file => file.regular

def Machine.linesOf (m : Machine) (name : String) : List String :=
  match m.dropIns.lookup name with
  | none => []
  | some file => file.lines

def readEffectivePasswordlessUsers (m : Machine) : List String :=
  (((sudoersDropInPaths m).flatMap m.linesOf).filterMap ruleUser).toFinset.sort (· ≤ ·)

def ignoredLine (line : String) : Bool :=
  match skipSpaces line.toList with
  | [] => true
  | c :: _ => c == '#'

def managedUsers : List String → List String → Except String (List String)
  | users, [] => .ok users
  | users, line :: rest =>
    if ignoredLine line then managedUsers users rest
    else match ruleUser line with
      | none => .error "The managed sudo policy contains an unexpected rule."
      | some username => managedUsers (addCredential users username) rest

def readManagedPasswordlessUsers (m : Machine) : Except String (List String) :=
  if m.safeOptional MANAGED_SUDOERS then managedUsers [] (m.linesOf MANAGED_SUDOERS)
  else .error "A managed security policy path is unsafe."

end Reading

section Writing

/-- `atomic_write` on a drop-in -/
def Machine.writeDropIn (m : Machine) (name : String) (lines : List String) : Machine :=
  { m with dropIns := m.dropIns.insert name ⟨true, lines⟩ }

def Machine.unlinkDropIn (m : Machine) (name : String) : Machine :=
  { m with dropIns := m.dropIns.erase name }

/-- The text of every drop-in before its write; `none` for one that did not exist. -/
abbrev Backups := List (String × Option (List String))

def restoreDropIn (m : Machine) : String × Option (List String) → Machine
  | (name, none) => m.unlinkDropIn name
  | (name, some lines) => m.writeDropIn name lines

/-- What the `try` block of `set_passwordless_sudo` has done. -/
structure Attempted where
  machine : Machine
  backups : Backups

def enableRule (username : String) (users : List String) (m : Machine) : Attempted where
  machine := m.writeDropIn MANAGED_SUDOERS
    (((insert username users.toFinset).sort (· ≤ ·)).map ruleLine)
  backups := [(MANAGED_SUDOERS, (m.dropIns.lookup MANAGED_SUDOERS).map DropIn.lines)]

def withoutRule (username : String) (lines : List String) : List String :=
  lines.filter fun line => ruleUser line != some username

/-- The loop over the paths of the drop-ins. -/
def disableRule (username : String) : List String → Attempted → Attempted
  | [], attempted => attempted
  | path :: rest, attempted =>
    let original := attempted.machine.linesOf path
    if withoutRule username original = original then disableRule username rest attempted
    else disableRule username rest
      ⟨attempted.machine.writeDropIn path (withoutRule username original),
        attempted.backups ++ [(path, some original)]⟩

/-- The effective users are recorded in the sudo state and in the metadata. -/
def Machine.recordUsers (m : Machine) : Machine :=
  let users := readEffectivePasswordlessUsers m
  { m with
    host := (m.host.withSudoState users).withMetadata
      { m.host.metadata with passwordlessSudoUsers := users } }

/-- The handler of the `try` block puts back the metadata, the sudo state and the drop-ins. -/
def Attempted.rolledBack (attempted : Attempted) (metadata : Metadata) (sudoState : List String) :
    Machine :=
  let restored := attempted.backups.foldl restoreDropIn attempted.machine
  { restored with host := (restored.host.withSudoState sudoState).withMetadata metadata }

end Writing

section Commands

variable (policy : Policy)

def validateUser (username : String) : Except String Unit :=
  if !USER_RE username then .error "Invalid username."
  else if !policy.userExists username then .error "The selected user does not exist."
  else .ok ()

/-- The checks of `set_passwordless_sudo` before its first write. -/
def policyChecks (username : String) (enabled : Bool) (m : Machine) : Except String Unit := do
  validateUser policy username
  if m.safeOptional MANAGED_SUDOERS && policy.sudoStateSafe then .ok ()
    else .error "A managed security policy path is unsafe."
  if !enabled && !policy.hasUsablePassword username && !sudoEnrolled m.host.metadata username then
    .error ("This account has no usable password. Enroll at least one sudo YubiKey " ++
      "before disabling passwordless sudo.")
  policy.visudo m.dropIns

def attemptedRule (username : String) (enabled : Bool) (users : List String) (m : Machine) :
    Attempted :=
  if enabled then enableRule username users m
  else disableRule username (sudoersDropInPaths m) ⟨m, []⟩

def setPasswordlessSudo (username : String) (enabled : Bool) (m : Machine) :
    Except String Unit × Machine :=
  match policyChecks policy username enabled m with
  | .error message => (.error message, m)
  | .ok () =>
    match readManagedPasswordlessUsers m with
    | .error message =>
      (.error message, Attempted.rolledBack ⟨m, []⟩ m.host.metadata m.host.sudoState)
    | .ok users =>
      let attempted := attemptedRule username enabled users m
      match policy.visudo attempted.machine.dropIns with
      | .error message =>
        (.error message, attempted.rolledBack m.host.metadata m.host.sudoState)
      | .ok () => (.ok (), attempted.machine.recordUsers)

/-- What a command on the keys sees of the system. -/
def Policy.system (m : Machine) : System :=
  ⟨policy.userExists, readEffectivePasswordlessUsers m⟩

/-- The checks of `repair_integrations` before its first write. -/
def repairChecks (m : Machine) : Except String Unit := do
  let _ ← readManagedPasswordlessUsers m
  if policy.sudoStateSafe then .ok () else .error "A managed security policy path is unsafe."
  policy.visudo m.dropIns

inductive Request where
  | key (command : Command)
  | passwordlessSudo (username : String) (enabled : Bool)

/-- The files after a command that came to its end, with or without an error. -/
def Request.after (m : Machine) : Request → Machine
  | .key .repair =>
    match repairChecks policy m with
    | .error _ => m
    | .ok () => { m with host := completed (repairIntegrations (policy.system m)) m.host }
  | .key command =>
    { m with host := completed (command.program (policy.system m)) m.host }
  | .passwordlessSudo username enabled => (setPasswordlessSudo policy username enabled m).2

def afterRequests : List Request → Machine → Machine
  | [], m => m
  | request :: rest, m => afterRequests rest (request.after policy m)

end Commands

end SecurityKeys
