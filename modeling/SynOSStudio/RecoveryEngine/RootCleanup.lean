import SynOSStudio.RecoveryEngine.Transaction

/-!
# Records of old roots that wait for deletion
-/

namespace RecoveryEngine

def rootCleanupSchemaVersion : ℕ := 1
def maxBlockedSubvolumes : ℕ := 256
def maxDiagnosticBytes : ℕ := 4096

structure RootCleanupRecord where
  schemaVersion : ℕ
  transactionId : RollbackId
  oldRootName : String
  createdAt : Timestamp
  updatedAt : Timestamp
  attempts : ℕ
  blockedSubvolumes : List String
  lastError : Option String
  deriving DecidableEq

def oldRootPrefix : String := "@root.snapshots-manager-old-"

/-- A relative path all of whose components are normal: it starts with a name, and no
component goes up. Later empty and current-directory components are skipped by `Path`. -/
def safeRelativePath (value : String) : Bool :=
  let parts := value.toList.splitOn '/'
  value.utf8ByteSize ≤ 4096 && !value.toList.any isControl &&
    (parts.head?.any fun part => part != [] && part != ".".toList) &&
    parts.all fun part => part != "..".toList

/-- The loop of `bounded_diagnostic`: characters are taken until the byte limit. -/
def boundedCharacters : ℕ → List Char → List Char
  | _, [] => []
  | used, c :: cs =>
    let c := if c = '\r' ∨ c = '\n' ∨ c = '\t' then ' '
      else if isControl c then Char.ofNat 0xfffd else c
    if maxDiagnosticBytes < used + c.utf8Size then []
    else c :: boundedCharacters (used + c.utf8Size) cs

def boundedDiagnostic (value : String) : String :=
  let cs := boundedCharacters 0 (trimmed value.toList)
  if cs.isEmpty then "No diagnostic was provided" else String.ofList cs

def validDiagnostic (value : String) : Bool :=
  !value.toList.isEmpty && value.utf8ByteSize ≤ maxDiagnosticBytes &&
    !value.toList.any fun c => isControl c && c != '\n' && c != '\t'

namespace RootCleanupRecord

/-- `RootCleanupRecord::new`, with the clock reading as an argument. -/
def new (transaction : RollbackTransaction) (now : Timestamp) : RootCleanupRecord where
  schemaVersion := rootCleanupSchemaVersion
  transactionId := transaction.id
  oldRootName := transaction.oldRootName
  createdAt := now
  updatedAt := now
  attempts := 0
  blockedSubvolumes := []
  lastError := none

def validate (record : RootCleanupRecord) : Except String Unit := do
  ensure (record.schemaVersion == rootCleanupSchemaVersion)
    s!"Unsupported root cleanup schema {record.schemaVersion}"
  ensure (record.oldRootName == oldRootPrefix ++ record.transactionId.hyphenated)
    "Root cleanup record has an invalid old-root name"
  ensure (record.blockedSubvolumes.length ≤ maxBlockedSubvolumes &&
      record.blockedSubvolumes.all safeRelativePath)
    "Root cleanup record contains an unsafe blocked subvolume"
  ensure (record.lastError.all validDiagnostic) "Root cleanup diagnostic is invalid"

/-- `record_deferred`; the attempt counter saturates at the largest `u32`. -/
def recordDeferred (record : RootCleanupRecord) (blocked : List String) (diagnostic : String)
    (now : Timestamp) : Except String RootCleanupRecord := do
  let record := { record with
    attempts := min (record.attempts + 1) (2 ^ 32 - 1)
    updatedAt := now
    blockedSubvolumes := blocked
    lastError := some (boundedDiagnostic diagnostic) }
  record.validate
  pure record

theorem validate_oldRootName {record : RootCleanupRecord} (h : record.validate = .ok ()) :
    record.oldRootName = oldRootPrefix ++ record.transactionId.hyphenated := by
  simp only [validate, bind_eq_ok_unit, ensure_eq_ok] at h
  simpa using h.2.1

theorem recordDeferred_eq_ok {record record' : RootCleanupRecord} {blocked : List String}
    {diagnostic : String} {now : Timestamp}
    (h : record.recordDeferred blocked diagnostic now = .ok record') :
    record'.transactionId = record.transactionId ∧ record'.oldRootName = record.oldRootName := by
  obtain ⟨_, _, hpure⟩ := bind_eq_ok.mp h
  cases hpure
  exact ⟨rfl, rfl⟩

end RootCleanupRecord

end RecoveryEngine
