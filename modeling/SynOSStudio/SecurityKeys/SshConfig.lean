import SynOSStudio.ByteStreams.Lines
import SynOSStudio.ByteStreams.Utf8
import SynOSStudio.WildcardPatterns.Matching
import SynOSStudio.TextLines.Characters

/-!
# SSH persistence

The managed block in `~/.ssh/config`, the fragment that it includes, and what turning the
persistence on and off does to the two files. Where an operation on the disk fails, the text of
its error is given.
-/

namespace SecurityKeys.Ssh

open ByteStreams WildcardPatterns

abbrev Text := List Char

abbrev Bytes := List UInt8

/-- The bytes of a constant. -/
def constant (s : String) : Bytes :=
  utf8Bytes s.toList

def MANAGED_FILE_NAME : String := "synos-yubikey-manager.inc"
def MANAGED_RELATIVE_PATH : String := "config.d/synos-yubikey-manager.inc"
def BEGIN_MARKER : String := "# BEGIN SynOS YubiKey Manager SSH persistence"
def END_MARKER : String := "# END SynOS YubiKey Manager SSH persistence"

def MANAGED_BLOCK : String :=
  "# BEGIN SynOS YubiKey Manager SSH persistence\nHost *\n    " ++
    "Include config.d/synos-yubikey-manager.inc\n# END SynOS YubiKey Manager SSH persistence\n"

def MANAGED_FRAGMENT : String :=
  "    ControlMaster auto\n    ControlPath ~/.ssh/cm-%r@%h:%p\n    ControlPersist 10m\n"

/-! ## The managed block -/

structure ManagedRange where
  removalStart : ℕ
  markerStart : ℕ
  stop : ℕ
  deriving DecidableEq

def appendManagedBlock (original : Bytes) : Bytes :=
  if original = [] then constant MANAGED_BLOCK
  else original ++ 10 :: constant MANAGED_BLOCK

/-- A text without the last byte, if it is this one. -/
def stripSuffix (byte : UInt8) (text : Bytes) : Bytes :=
  if text.getLast? = some byte then text.dropLast else text

def bareLine (line : Bytes) : Bytes :=
  stripSuffix 13 (stripSuffix 10 line)

structure Marks where
  begins : List ℕ
  ends : List ℕ
  offset : ℕ

def Marks.line (m : Marks) (line : Bytes) : Marks where
  begins := if bareLine line = constant BEGIN_MARKER then m.begins ++ [m.offset] else m.begins
  ends := if bareLine line = constant END_MARKER then m.ends ++ [m.offset + line.length] else m.ends
  offset := m.offset + line.length

def duplicateMarkers : String :=
  "The SSH configuration contains duplicate or incomplete application markers. " ++
    "Remove or repair the marked block manually."

def changedBlock : String :=
  "The application-managed block in the SSH configuration was changed. " ++
    "Restore or remove the marked block manually."

def locateManagedBlock (content : Bytes) : Except String (Option ManagedRange) :=
  let marks := (linesOf 10 content).foldl Marks.line ⟨[], [], 0⟩
  match marks.begins, marks.ends with
  | [], [] => .ok none
  | [markerStart], [stop] =>
    if stop ≤ markerStart then .error duplicateMarkers
    else if (content.take stop).drop markerStart ≠ constant MANAGED_BLOCK then .error changedBlock
    else
      .ok (some ⟨if 0 < markerStart ∧ content[markerStart - 1]? = some 10 then markerStart - 1
        else markerStart, markerStart, stop⟩)
  | _, _ => .error duplicateMarkers

/-- `Vec::drain` of a range. -/
def drain (content : Bytes) (start stop : ℕ) : Bytes :=
  content.take start ++ content.drop stop

/-! ## References to the fragment -/

/-- `char::is_whitespace` -/
def isWhitespace (c : Char) : Bool :=
  let n := c.toNat
  (9 ≤ n && n ≤ 13) || n == 32 || (0x2000 ≤ n && n ≤ 0x200a) ||
    [0x85, 0xa0, 0x1680, 0x2028, 0x2029, 0x202f, 0x205f, 0x3000].contains n

/-- A line without the line break at its end. -/
def stripLineBreak (line : Text) : Text :=
  if line.getLast? = some '\n' then
    if line.dropLast.getLast? = some '\r' then line.dropLast.dropLast else line.dropLast
  else line

/-- `str::lines` -/
def lines (text : Text) : List Text :=
  (linesOf '\n' text).map stripLineBreak

/-- `str::split_whitespace` -/
def splitWhitespace (text : Text) : List Text :=
  (text.splitOnP isWhitespace).filter (· ≠ [])

/-- The text from where the other one first stands in it. -/
def fromFirst (needle text : Text) : Option Text :=
  text.tails.find? fun rest => needle.isPrefixOf rest

def wildcardMatches (pattern value : Text) : Bool :=
  if '[' ∈ pattern then (fromFirst "config.d/".toList pattern).isSome
  else (Scan.start (utf8Bytes pattern) (utf8Bytes value)).matches 63 42

/-- Whether an argument of an `Include` names the fragment. -/
def namesFragment (pattern : Text) : Bool :=
  let relative := (fromFirst "config.d/".toList pattern).getD pattern
  pattern = MANAGED_RELATIVE_PATH.toList || MANAGED_FILE_NAME.toList.isSuffixOf pattern ||
    wildcardMatches relative MANAGED_RELATIVE_PATH.toList

def stripKeyword (keyword line : Text) : Option Text :=
  if keyword.isPrefixOf line then some (line.drop keyword.length) else none

def lineRefers (line : Text) : Bool :=
  let line := line.dropWhile isWhitespace
  match (stripKeyword "Include".toList line).or (stripKeyword "include".toList line) with
  | none => false
  | some arguments =>
    (arguments.head?.map isWhitespace = some true) && (splitWhitespace arguments).any namesFragment

def fragmentMayBeReferenced (config : Bytes) : Bool :=
  match decodeUtf8 config with
  | none => true
  | some text => (lines text).any lineRefers

/-! ## The two files -/

structure Files where
  config : Option Bytes
  fragment : Option Bytes
  deriving DecidableEq

/-- The errors of the operations on the disk, in the order in which they are tried. -/
structure Faults where
  readConfig : Option String
  readFragment : Option String
  replaceFragment : Option String
  replaceConfig : Option String
  removeFragment : Option String
  rollback : Option String

def notUtf8 : String :=
  "The SSH configuration is not valid UTF-8 and cannot be safely managed: ~/.ssh/config"

def fragmentExists : String :=
  "A file already exists at the managed SSH configuration path: " ++
    "~/.ssh/config.d/synos-yubikey-manager.inc"

/-- The files after the call, and its error. -/
abbrev Outcome := Files × Option String

def attempt (fault : Option String) (files : Files) (next : Outcome) : Outcome :=
  match fault with
  | some error => (files, some error)
  | none => next

def enableFiles (faults : Faults) (files : Files) : Outcome :=
  attempt faults.readConfig files <|
  let content := files.config.getD []
  match decodeUtf8 content with
  | none => (files, some notUtf8)
  | some _ =>
  match locateManagedBlock content with
  | .error error => (files, some error)
  | .ok (some _) => (files, none)
  | .ok none =>
  attempt faults.readFragment files <|
  let candidate := some (appendManagedBlock content)
  match files.fragment with
  | some fragment =>
    if fragment = constant MANAGED_FRAGMENT then
      attempt faults.replaceConfig files ({ files with config := candidate }, none)
    else (files, some fragmentExists)
  | none =>
    attempt faults.replaceFragment files <|
    let written := { files with fragment := some (constant MANAGED_FRAGMENT) }
    match faults.replaceConfig with
    | some error =>
      -- the fragment is removed again, whether that works or not
      (if faults.removeFragment = none then files else written, some error)
    | none => ({ written with config := candidate }, none)

def configMissing : String :=
  "The managed SSH block exists but the main configuration is missing: ~/.ssh/config"

def blockGone : String :=
  "The managed SSH block is no longer present. Refresh and try again."

def fragmentChanged : String :=
  "The managed SSH configuration changed while it was being removed: " ++
    "~/.ssh/config.d/synos-yubikey-manager.inc"

/-- The configuration is put back, and the first error stands unless that fails. -/
def rollbackConfig (faults : Faults) (before after : Files) (error : String) : Outcome :=
  match faults.rollback with
  | some rollback => (after, some rollback)
  | none => (before, some error)

def disable (faults : Faults) (files : Files) : Outcome :=
  attempt faults.readConfig files <|
  match files.config with
  | none => (files, some configMissing)
  | some content =>
  match decodeUtf8 content with
  | none => (files, some notUtf8)
  | some _ =>
  match locateManagedBlock content with
  | .error error => (files, some error)
  | .ok none => (files, some blockGone)
  | .ok (some range) =>
  let candidate := drain content range.removalStart range.stop
  attempt faults.replaceConfig files <|
  let after := { files with config := some candidate }
  if fragmentMayBeReferenced candidate then (after, none)
  else
    match faults.readFragment with
    | some error => rollbackConfig faults files after error
    | none =>
    match files.fragment with
    | none => (after, none)
    | some fragment =>
      if fragment ≠ constant MANAGED_FRAGMENT then
        rollbackConfig faults files after fragmentChanged
      else
        match faults.removeFragment with
        | some error => rollbackConfig faults files after error
        | none => ({ after with fragment := none }, none)

end SecurityKeys.Ssh
