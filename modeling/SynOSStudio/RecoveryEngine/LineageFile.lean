import SynOSStudio.InterruptiblePrograms.Directories
import SynOSStudio.JsonText.Records
import SynOSStudio.RecoveryEngine.Lineage

/-!
# The lineage file on disk

`system-lineage.json` in the history directory, as the text that `load_from` reads
and `save_to` writes. The store's own lock file keeps two mutations apart, so a
mutation is a program on the directory that nothing else disturbs; every operation
of it may fail, and it may be killed before any of them.
-/

namespace RecoveryEngine

open InterruptiblePrograms JsonText

/-- The text form of instants, of the `chrono` crate. -/
structure InstantText where
  write : Timestamp → String
  read : String → Option Timestamp
  read_write : ∀ instant, read (write instant) = some instant

namespace InstantText

variable (instants : InstantText)

def toJson (instant : Timestamp) : Json :=
  .text (instants.write instant)

def ofJson : Json → Option Timestamp
  | .text s => instants.read s
  | _ => none

theorem ofJson_toJson (instant : Timestamp) : instants.ofJson (instants.toJson instant) =
    some instant :=
  instants.read_write instant

end InstantText

namespace Uuid

def toJson (u : Uuid) : Json :=
  .text u.hyphenated

def ofJson : Json → Option Uuid
  | .text s => parseStr s
  | _ => none

theorem ofJson_toJson (u : Uuid) : ofJson u.toJson = some u :=
  parseStr_hyphenated u

end Uuid

def LineageRelation.name : LineageRelation → String
  | .exact => "exact"
  | .legacyUnknown => "legacy-unknown"

def ActivationOutcome.name : ActivationOutcome → String
  | .confirmed => "confirmed"
  | .reverted => "reverted"

def DeploymentKind.name : DeploymentKind → String
  | .factory => "factory"
  | .manual => "manual"
  | .automatic => "automatic"
  | .aptPre => "apt-pre"
  | .aptPost => "apt-post"
  | .preRollback => "pre-rollback"
  | .imported => "imported"

def LineageRelation.ofJson : Json → Option LineageRelation :=
  readVariant [.exact, .legacyUnknown] name

def ActivationOutcome.ofJson : Json → Option ActivationOutcome :=
  readVariant [.confirmed, .reverted] name

def DeploymentKind.ofJson : Json → Option DeploymentKind :=
  readVariant [.factory, .manual, .automatic, .aptPre, .aptPost, .preRollback, .imported] name

theorem LineageRelation.ofJson_name (relation : LineageRelation) :
    ofJson (.text relation.name) = some relation := by
  cases relation <;> rfl

theorem ActivationOutcome.ofJson_name (outcome : ActivationOutcome) :
    ofJson (.text outcome.name) = some outcome := by
  cases outcome <;> rfl

theorem DeploymentKind.ofJson_name (kind : DeploymentKind) : ofJson (.text kind.name) = some kind := by
  cases kind <;> rfl

section Records

variable (instants : InstantText)

namespace LineageNode

def fieldNames : List String :=
  ["recovery_point_id", "parent_id", "relation", "created_at", "kind", "title",
    "snapshot_available", "removed_at"]

def members (node : LineageNode) : List (String × Json) :=
  [("recovery_point_id", node.recoveryPointId.toJson),
    ("parent_id", ofOption Uuid.toJson node.parentId),
    ("relation", .text node.relation.name),
    ("created_at", instants.toJson node.createdAt),
    ("kind", .text node.kind.name),
    ("title", .text node.title),
    ("snapshot_available", .bool node.snapshotAvailable),
    ("removed_at", ofOption instants.toJson node.removedAt)]

def toJson (node : LineageNode) : Json :=
  .object (node.members instants)

def ofJson (json : Json) : Option LineageNode := do
  let members ← knownMembers fieldNames json
  let recoveryPointId ← required members "recovery_point_id" Uuid.ofJson
  let parentId ← optional members "parent_id" Uuid.ofJson
  let relation ← required members "relation" LineageRelation.ofJson
  let createdAt ← required members "created_at" instants.ofJson
  let kind ← required members "kind" DeploymentKind.ofJson
  let title ← required members "title" readText
  let snapshotAvailable ← required members "snapshot_available" readBool
  let removedAt ← optional members "removed_at" instants.ofJson
  some ⟨recoveryPointId, parentId, relation, createdAt, kind, title, snapshotAvailable, removedAt⟩

theorem ofJson_toJson (node : LineageNode) : ofJson instants (node.toJson instants) = some node := by
  have hmembers : knownMembers fieldNames (node.toJson instants) =
      some (node.members instants) := by
    have hnames : (node.members instants).map Prod.fst = fieldNames := rfl
    rw [toJson, knownMembers, hnames, if_pos (by decide)]
  have hid : required (node.members instants) "recovery_point_id" Uuid.ofJson =
      some node.recoveryPointId := required_of_lookup rfl (Uuid.ofJson_toJson _)
  have hparent : optional (node.members instants) "parent_id" Uuid.ofJson = some node.parentId :=
    optional_of_lookup rfl (fun id _ => Uuid.ofJson_toJson id) rfl
  have hrelation : required (node.members instants) "relation" LineageRelation.ofJson =
      some node.relation := required_of_lookup rfl (LineageRelation.ofJson_name _)
  have hcreated : required (node.members instants) "created_at" instants.ofJson =
      some node.createdAt := required_of_lookup rfl (instants.ofJson_toJson _)
  have hkind : required (node.members instants) "kind" DeploymentKind.ofJson = some node.kind :=
    required_of_lookup rfl (DeploymentKind.ofJson_name _)
  have htitle : required (node.members instants) "title" readText = some node.title :=
    required_of_lookup rfl rfl
  have havailable : required (node.members instants) "snapshot_available" readBool =
      some node.snapshotAvailable := required_of_lookup rfl rfl
  have hremoved : optional (node.members instants) "removed_at" instants.ofJson =
      some node.removedAt :=
    optional_of_lookup rfl (fun instant _ => instants.ofJson_toJson instant) rfl
  simp only [ofJson, hmembers, hid, hparent, hrelation, hcreated, hkind, htitle, havailable,
    hremoved, Option.bind_eq_bind, Option.bind_some]

end LineageNode

namespace ActivationEvent

def fieldNames : List String :=
  ["transaction_id", "previous_head_id", "target_recovery_point_id", "safety_recovery_point_id",
    "scheduled_at", "completed_at", "outcome"]

def members (event : ActivationEvent) : List (String × Json) :=
  [("transaction_id", .text event.transactionId),
    ("previous_head_id", ofOption Uuid.toJson event.previousHeadId),
    ("target_recovery_point_id", event.targetRecoveryPointId.toJson),
    ("safety_recovery_point_id", event.safetyRecoveryPointId.toJson),
    ("scheduled_at", instants.toJson event.scheduledAt),
    ("completed_at", instants.toJson event.completedAt),
    ("outcome", .text event.outcome.name)]

def toJson (event : ActivationEvent) : Json :=
  .object (event.members instants)

def ofJson (json : Json) : Option ActivationEvent := do
  let members ← knownMembers fieldNames json
  let transactionId ← required members "transaction_id" readText
  let previousHeadId ← optional members "previous_head_id" Uuid.ofJson
  let targetRecoveryPointId ← required members "target_recovery_point_id" Uuid.ofJson
  let safetyRecoveryPointId ← required members "safety_recovery_point_id" Uuid.ofJson
  let scheduledAt ← required members "scheduled_at" instants.ofJson
  let completedAt ← required members "completed_at" instants.ofJson
  let outcome ← required members "outcome" ActivationOutcome.ofJson
  some ⟨transactionId, previousHeadId, targetRecoveryPointId, safetyRecoveryPointId, scheduledAt,
    completedAt, outcome⟩

theorem ofJson_toJson (event : ActivationEvent) :
    ofJson instants (event.toJson instants) = some event := by
  have hmembers : knownMembers fieldNames (event.toJson instants) =
      some (event.members instants) := by
    have hnames : (event.members instants).map Prod.fst = fieldNames := rfl
    rw [toJson, knownMembers, hnames, if_pos (by decide)]
  have htransaction : required (event.members instants) "transaction_id" readText =
      some event.transactionId := required_of_lookup rfl rfl
  have hhead : optional (event.members instants) "previous_head_id" Uuid.ofJson =
      some event.previousHeadId :=
    optional_of_lookup rfl (fun id _ => Uuid.ofJson_toJson id) rfl
  have htarget : required (event.members instants) "target_recovery_point_id" Uuid.ofJson =
      some event.targetRecoveryPointId := required_of_lookup rfl (Uuid.ofJson_toJson _)
  have hsafety : required (event.members instants) "safety_recovery_point_id" Uuid.ofJson =
      some event.safetyRecoveryPointId := required_of_lookup rfl (Uuid.ofJson_toJson _)
  have hscheduled : required (event.members instants) "scheduled_at" instants.ofJson =
      some event.scheduledAt := required_of_lookup rfl (instants.ofJson_toJson _)
  have hcompleted : required (event.members instants) "completed_at" instants.ofJson =
      some event.completedAt := required_of_lookup rfl (instants.ofJson_toJson _)
  have houtcome : required (event.members instants) "outcome" ActivationOutcome.ofJson =
      some event.outcome := required_of_lookup rfl (ActivationOutcome.ofJson_name _)
  simp only [ofJson, hmembers, htransaction, hhead, htarget, hsafety, hscheduled, hcompleted,
    houtcome, Option.bind_eq_bind, Option.bind_some]

end ActivationEvent

namespace SystemLineage

def fieldNames : List String :=
  ["schema_version", "revision", "current_head_id", "nodes", "activations"]

def members (lineage : SystemLineage) : List (String × Json) :=
  [("schema_version", .number lineage.schemaVersion),
    ("revision", .number lineage.revision),
    ("current_head_id", ofOption Uuid.toJson lineage.currentHeadId),
    ("nodes", .array (lineage.nodes.map (LineageNode.toJson instants))),
    ("activations", .array (lineage.activations.map (ActivationEvent.toJson instants)))]

def toJson (lineage : SystemLineage) : Json :=
  .object (lineage.members instants)

def ofJson (json : Json) : Option SystemLineage := do
  let members ← knownMembers fieldNames json
  let schemaVersion ← required members "schema_version" (readNat (2 ^ 32 - 1))
  let revision ← required members "revision" (readNat maxRevision)
  let currentHeadId ← optional members "current_head_id" Uuid.ofJson
  let nodes ← required members "nodes" (readArray (LineageNode.ofJson instants))
  let activations ← required members "activations" (readArray (ActivationEvent.ofJson instants))
  some ⟨schemaVersion, revision, currentHeadId, nodes, activations⟩

/-- The numbers of the lineage fit into the machine integers that hold them. -/
def Representable (lineage : SystemLineage) : Prop :=
  lineage.schemaVersion ≤ 2 ^ 32 - 1 ∧ lineage.revision ≤ maxRevision

theorem ofJson_toJson {lineage : SystemLineage} (h : lineage.Representable) :
    ofJson instants (lineage.toJson instants) = some lineage := by
  have hmembers : knownMembers fieldNames (lineage.toJson instants) =
      some (lineage.members instants) := by
    have hnames : (lineage.members instants).map Prod.fst = fieldNames := rfl
    rw [toJson, knownMembers, hnames, if_pos (by decide)]
  have hschema : required (lineage.members instants) "schema_version" (readNat (2 ^ 32 - 1)) =
      some lineage.schemaVersion := required_of_lookup rfl (readNat_number h.1)
  have hrevision : required (lineage.members instants) "revision" (readNat maxRevision) =
      some lineage.revision := required_of_lookup rfl (readNat_number h.2)
  have hhead : optional (lineage.members instants) "current_head_id" Uuid.ofJson =
      some lineage.currentHeadId :=
    optional_of_lookup rfl (fun id _ => Uuid.ofJson_toJson id) rfl
  have hnodes : required (lineage.members instants) "nodes"
      (readArray (LineageNode.ofJson instants)) = some lineage.nodes :=
    readArray_map fun node _ => node.ofJson_toJson instants
  have hactivations : required (lineage.members instants) "activations"
      (readArray (ActivationEvent.ofJson instants)) = some lineage.activations :=
    readArray_map fun event _ => event.ofJson_toJson instants
  simp only [ofJson, hmembers, hschema, hrevision, hhead, hnodes, hactivations,
    Option.bind_eq_bind, Option.bind_some]

/-- What is read has numbers that fit. -/
theorem representable_of_ofJson {json : Json} {lineage : SystemLineage}
    (h : ofJson instants json = some lineage) : lineage.Representable := by
  simp only [ofJson, Option.bind_eq_bind, Option.bind_eq_some_iff] at h
  obtain ⟨members, -, schemaVersion, hschema, revision, hrevision, head, -, nodes, -, activations,
    -, heq⟩ := h
  have hbound : ∀ (name : String) (largest n : ℕ),
      required members name (readNat largest) = some n → n ≤ largest := by
    intro name largest n hread
    obtain ⟨value, -, hvalue⟩ := Option.bind_eq_some_iff.mp hread
    unfold readNat at hvalue
    split at hvalue
    · split_ifs at hvalue with hle
      cases hvalue
      exact hle
    · cases hvalue
  cases heq
  exact ⟨hbound _ _ _ hschema, hbound _ _ _ hrevision⟩

end SystemLineage

end Records

def FileError.display : FileError → String
  | .notFound => "No such file or directory (os error 2)"
  | .alreadyExists => "File exists (os error 17)"
  | .other text => text

def lineageIoError (context : String) (error : FileError) : LineageError :=
  ⟨.io, s!"{context}: {FileError.display error}"⟩

def lineageFileName : String := "system-lineage.json"

/-- The temporary file of a save, named by the drawn identifier. -/
def lineageTemporaryName (drawn : Uuid) : String :=
  ".system-lineage-" ++ drawn.hyphenated ++ ".tmp"

/-- The files of the history directory. -/
abbrev HistoryDirectory := Directory String Char

abbrev LineageAttempt (α : Type) := Attempt (DirectoryOp String Char) DirectoryAns LineageError α

section Programs

variable (instants : InstantText)

/-- The text that `save_to` writes before the final line break. -/
@[irreducible] def serializedLineage (lineage : SystemLineage) : List Char :=
  pretty 0 (lineage.toJson instants)

/-- What `load_from` makes of the text it has read. -/
def decodeLineage (contents : List Char) : Except LineageError SystemLineage := do
  ensure (byteLength contents ≤ maxLineageBytes)
    (.invalid "system lineage exceeds its size limit")
  match (parse contents).bind (SystemLineage.ofJson instants) with
  | none => .error (.invalid "System lineage is invalid JSON")
  | some lineage => do
    lineage.validate
    pure lineage

/-- A missing file is no error. -/
def lineageContents : Except FileError (List Char) → Except LineageError (Option (List Char))
  | .ok contents => .ok (some contents)
  | .error .notFound => .ok none
  | .error error => .error (lineageIoError "Could not inspect system lineage" error)

def loadFrom : LineageAttempt (Option SystemLineage) := do
  match ← Attempt.call (.read lineageFileName) lineageContents with
  | none => pure none
  | some contents => do
    let lineage ← Attempt.ofExcept (decodeLineage instants contents)
    pure (some lineage)

def saveTo (drawn : Uuid) (lineage : SystemLineage) : LineageAttempt Unit := do
  Attempt.ofExcept lineage.validate
  Attempt.ofExcept (ensure (byteLength (serializedLineage instants lineage) ≤ maxLineageBytes)
    (.invalid "system lineage exceeds its size limit"))
  Attempt.mapError (lineageIoError "Could not atomically save system lineage")
    (replaceFile (lineageTemporaryName drawn) lineageFileName
      (serializedLineage instants lineage) ['\n'])

/-- `path.exists()`; an error counts as absence. -/
def lineageExists : LineageAttempt Bool :=
  Attempt.call (.read lineageFileName) fun contents => .ok contents.toBool

/-- `LineageStore::mutate`. -/
def mutateFile (drawn : Uuid)
    (mutation : Option SystemLineage → Except LineageError (Option SystemLineage × Bool)) :
    LineageAttempt SystemLineage := do
  let file ← loadFrom instants
  let (file, changed) ← Attempt.ofExcept (mutation file)
  match file with
  | none => throw (.invalid "system lineage mutation produced no record")
  | some lineage => do
    let lineage ← Attempt.ofExcept (LineageStore.revised changed lineage)
    Attempt.ofExcept lineage.validate
    if changed then saveTo instants drawn lineage
    else if !(← lineageExists) then saveTo instants drawn lineage
    pure lineage

/-- Append the node of an imported snapshot, which does not become the head. -/
def appendDetached (record : DeploymentRecord) (lineage : SystemLineage) : SystemLineage × Bool :=
  if lineage.knows record.id then (lineage, false)
  else
    ({ lineage with
      nodes := lineage.nodes ++ [{
        recoveryPointId := record.id
        parentId := none
        relation := .legacyUnknown
        createdAt := record.createdAt
        kind := record.kind
        title := record.title
        snapshotAvailable := true
        removedAt := none }] }, true)

/-- The methods of `LineageStore`. -/
inductive LineageOperation where
  | load
  | mutate (mutation : LineageMutation)
  | recordDetachedRecoveryPoint (record : DeploymentRecord)

def LineageOperation.program (drawn : Uuid) : LineageOperation → LineageAttempt Unit
  | .load => do
    let _ ← loadFrom instants
  | .mutate mutation => do
    let _ ← mutateFile instants drawn mutation.apply
  | .recordDetachedRecoveryPoint record => do
    Attempt.ofExcept (ensure record.snapshotUuid.isSome
      (.invalid "a detached lineage node requires a completed system snapshot"))
    let _ ← mutateFile instants drawn fun file =>
      LineageMutation.onExisting file fun lineage => .ok (appendDetached record lineage)

end Programs

end RecoveryEngine
