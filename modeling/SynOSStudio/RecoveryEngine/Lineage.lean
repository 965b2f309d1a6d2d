import SynOSStudio.KeyedLists.Dictionaries
import SynOSStudio.RecoveryEngine.Transaction

/-!
# The system lineage

The history file of system snapshots and of the restores that were activated.
`LineageStore.mutate` loads the file, applies one change, validates the result and
saves it when something changed; it runs under its own file lock, so each mutation
is one step of the store.
-/

namespace RecoveryEngine

def lineageSchemaVersion : ℕ := 1
def maxLineageBytes : ℕ := 4 * 1024 * 1024
def maxLineageNodes : ℕ := 100000
def maxActivationEvents : ℕ := 10000
def maxRevision : ℕ := 2 ^ 64 - 1

inductive LineageRelation where
  | exact | legacyUnknown
  deriving DecidableEq, Repr

inductive ActivationOutcome where
  | confirmed | reverted
  deriving DecidableEq, Repr

structure LineageNode where
  recoveryPointId : DeploymentId
  parentId : Option DeploymentId
  relation : LineageRelation
  createdAt : Timestamp
  kind : DeploymentKind
  title : String
  snapshotAvailable : Bool
  removedAt : Option Timestamp
  deriving DecidableEq

structure ActivationEvent where
  transactionId : String
  previousHeadId : Option DeploymentId
  targetRecoveryPointId : DeploymentId
  safetyRecoveryPointId : DeploymentId
  scheduledAt : Timestamp
  completedAt : Timestamp
  outcome : ActivationOutcome
  deriving DecidableEq

structure SystemLineage where
  schemaVersion : ℕ
  revision : ℕ
  currentHeadId : Option DeploymentId
  nodes : List LineageNode
  activations : List ActivationEvent
  deriving DecidableEq

inductive LineageErrorCode where
  | invalidRecord | io
  deriving DecidableEq, Repr

structure LineageError where
  code : LineageErrorCode
  message : String
  deriving DecidableEq, Repr

def LineageError.invalid (message : String) : LineageError :=
  ⟨.invalidRecord, message⟩

/-- Iterator `max_by_key`: among elements with the greatest key the last one. -/
def maxByKey {α : Type} (key : α → Timestamp) : List α → Option α
  | [] => none
  | a :: as =>
    match maxByKey key as with
    | none => some a
    | some b => if key b < key a then some a else some b

namespace LineageNode

/-- The node that `migrate` writes for a record. -/
def ofRecord (record : DeploymentRecord) : LineageNode where
  recoveryPointId := record.id
  parentId := none
  relation := .legacyUnknown
  createdAt := record.createdAt
  kind := record.kind
  title := record.title
  snapshotAvailable := record.state != .deleting
  removedAt := none

/-- The checks of `validate` on one node. -/
def check (node : LineageNode) : Except LineageError Unit := do
  ensure (node.parentId != some node.recoveryPointId)
    (.invalid "a lineage node cannot parent itself")
  ensure (!invalidText node.title 120) (.invalid "a lineage node has an invalid title")
  ensure (node.snapshotAvailable != node.removedAt.isSome)
    (.invalid "lineage snapshot availability is inconsistent")
  ensure (!(node.relation == .legacyUnknown && node.parentId.isSome))
    (.invalid "legacy lineage nodes cannot claim an exact parent")

end LineageNode

/-- Check the nodes in order, each against the identifiers before it. -/
def checkNodes : List DeploymentId → List LineageNode → Except LineageError Unit
  | _, [] => .ok ()
  | seen, node :: nodes => do
    ensure (!seen.contains node.recoveryPointId)
      (.invalid "system lineage contains duplicate nodes")
    node.check
    checkNodes (node.recoveryPointId :: seen) nodes

/-- Follow parents from `cursor` until a completed node or the end of the chain. The
walk visits distinct nodes, so one more step than there are nodes is never needed. -/
def walkParents (parents : DeploymentId → Option DeploymentId) (completed : List DeploymentId) :
    ℕ → List DeploymentId → Option DeploymentId → Except LineageError (List DeploymentId)
  | _, path, none => .ok path
  | 0, _, some _ => .error (.invalid "system lineage contains a cycle")
  | fuel + 1, path, some id =>
    if completed.contains id then .ok path
    else if path.contains id then .error (.invalid "system lineage contains a cycle")
    else walkParents parents completed fuel (id :: path) (parents id)

def validateAcyclicFrom (parents : DeploymentId → Option DeploymentId) (fuel : ℕ) :
    List DeploymentId → List DeploymentId → Except LineageError Unit
  | _, [] => .ok ()
  | completed, id :: ids => do
    let path ← walkParents parents completed fuel [] (some id)
    validateAcyclicFrom parents fuel (path ++ completed) ids

def validateAcyclic (nodes : List LineageNode) : Except LineageError Unit :=
  let parents id := (KeyedLists.entry LineageNode.recoveryPointId nodes id).bind LineageNode.parentId
  validateAcyclicFrom parents (nodes.length + 2) [] (nodes.map LineageNode.recoveryPointId)

/-- Check the activation events in order, each against the transactions before it. -/
def checkActivations (nodeIds : List DeploymentId) :
    List String → List ActivationEvent → Except LineageError Unit
  | _, [] => .ok ()
  | seen, event :: events => do
    ensure (Uuid.parseStr event.transactionId).isSome
      (.invalid "an activation transaction ID is invalid")
    ensure (canonicalUuid event.transactionId && !seen.contains event.transactionId)
      (.invalid "activation transaction IDs must be unique canonical UUIDs")
    ensure (!decide (event.completedAt < event.scheduledAt) &&
        nodeIds.contains event.targetRecoveryPointId &&
        nodeIds.contains event.safetyRecoveryPointId &&
        event.previousHeadId.all nodeIds.contains)
      (.invalid "an activation event is inconsistent")
    checkActivations nodeIds (event.transactionId :: seen) events

namespace SystemLineage

def nodeIds (lineage : SystemLineage) : List DeploymentId :=
  lineage.nodes.map LineageNode.recoveryPointId

def migrate (deployments : List DeploymentRecord) : SystemLineage where
  schemaVersion := lineageSchemaVersion
  revision := 1
  currentHeadId :=
    (maxByKey DeploymentRecord.createdAt
      (deployments.filter fun record => record.canRestore && record.kind != .imported)).map
        DeploymentRecord.id
  nodes := (deployments.filter fun record => record.snapshotUuid.isSome).map LineageNode.ofRecord
  activations := []

def validate (lineage : SystemLineage) : Except LineageError Unit := do
  ensure (lineage.schemaVersion == lineageSchemaVersion)
    (.invalid "unsupported system lineage schema")
  ensure (lineage.nodes.length ≤ maxLineageNodes &&
      lineage.activations.length ≤ maxActivationEvents)
    (.invalid "system lineage exceeds its safety limit")
  checkNodes [] lineage.nodes
  ensure (lineage.currentHeadId.all lineage.nodeIds.contains)
    (.invalid "the current lineage head is missing")
  ensure (lineage.nodes.all fun node => node.parentId.all lineage.nodeIds.contains)
    (.invalid "a lineage parent is missing")
  validateAcyclic lineage.nodes
  checkActivations lineage.nodeIds [] lineage.activations

def knows (lineage : SystemLineage) (id : DeploymentId) : Bool :=
  lineage.nodes.any fun node => node.recoveryPointId == id

end SystemLineage

/-- One change of the lineage file, as the closures passed to `mutate`. -/
inductive LineageMutation where
  | ensureInitialized (deployments : List DeploymentRecord)
  | recordRecoveryPoint (record : DeploymentRecord)
  | recordActivation (transaction : RollbackTransaction) (outcome : ActivationOutcome)
      (completedAt : Timestamp)
  | markSnapshotRemoved (recoveryPointId : DeploymentId) (removedAt : Timestamp)

namespace LineageMutation

/-- A mutation of an existing lineage fails where there is none. -/
def onExisting (file : Option SystemLineage)
    (change : SystemLineage → Except LineageError (SystemLineage × Bool)) :
    Except LineageError (Option SystemLineage × Bool) :=
  match file with
  | none => .error (.invalid "system lineage is not initialized")
  | some lineage => do
    let (lineage', changed) ← change lineage
    pure (some lineage', changed)

def activate (transaction : RollbackTransaction) (outcome : ActivationOutcome)
    (completedAt : Timestamp) (lineage : SystemLineage) :
    Except LineageError (SystemLineage × Bool) :=
  match lineage.activations.find? fun event =>
      event.transactionId == transaction.id.hyphenated with
  | some existing =>
    if existing.outcome = outcome then .ok (lineage, false)
    else .error (.invalid "an activation transaction changed its terminal outcome")
  | none =>
    if lineage.knows transaction.targetDeploymentId &&
        lineage.knows transaction.fallbackDeploymentId then
      .ok ({ lineage with
        activations := lineage.activations ++ [{
          transactionId := transaction.id.hyphenated
          previousHeadId := lineage.currentHeadId
          targetRecoveryPointId := transaction.targetDeploymentId
          safetyRecoveryPointId := transaction.fallbackDeploymentId
          scheduledAt := transaction.createdAt
          completedAt := completedAt
          outcome := outcome }]
        currentHeadId := some (match outcome with
          | .confirmed => transaction.targetDeploymentId
          | .reverted => transaction.fallbackDeploymentId) }, true)
    else
      .error (.invalid "activation system snapshots are missing from the lineage")

/-- Append the node of a completed snapshot and make it the head. -/
def appendPoint (record : DeploymentRecord) (lineage : SystemLineage) : SystemLineage × Bool :=
  if lineage.knows record.id then (lineage, false)
  else
    ({ lineage with
      nodes := lineage.nodes ++ [{
        recoveryPointId := record.id
        parentId := lineage.currentHeadId
        relation := .exact
        createdAt := record.createdAt
        kind := record.kind
        title := record.title
        snapshotAvailable := true
        removedAt := none }]
      currentHeadId := some record.id }, true)

/-- Set the first node of the snapshot to removed. -/
def setRemoved (id : DeploymentId) (removedAt : Timestamp) : List LineageNode → List LineageNode
  | [] => []
  | node :: nodes =>
    if node.recoveryPointId = id then
      { node with snapshotAvailable := false, removedAt := some removedAt } :: nodes
    else node :: setRemoved id removedAt nodes

def markRemoved (id : DeploymentId) (removedAt : Timestamp) (lineage : SystemLineage) :
    Except LineageError (SystemLineage × Bool) :=
  match lineage.nodes.find? fun node => node.recoveryPointId == id with
  | none => .error (.invalid "deleted system snapshot is missing from the lineage")
  | some node =>
    if node.snapshotAvailable then
      .ok ({ lineage with nodes := setRemoved id removedAt lineage.nodes }, true)
    else .ok (lineage, false)

/-- The changed file content and whether it changed. -/
def apply (file : Option SystemLineage) :
    LineageMutation → Except LineageError (Option SystemLineage × Bool)
  | .ensureInitialized deployments => .ok (some (file.getD (.migrate deployments)), false)
  | .recordRecoveryPoint record =>
    if record.snapshotUuid.isNone then
      .error (.invalid "a lineage node requires a completed system snapshot")
    else onExisting file fun lineage => .ok (appendPoint record lineage)
  | .recordActivation transaction outcome completedAt =>
    onExisting file (activate transaction outcome completedAt)
  | .markSnapshotRemoved id removedAt => onExisting file (markRemoved id removedAt)

end LineageMutation

/-- The lineage file and the length of the JSON text that stores a lineage. -/
structure LineageStore where
  file : Option SystemLineage
  encodedLength : SystemLineage → ℕ

namespace LineageStore

/-- `load_from`: the file, which ends with a newline after the JSON text, is checked
for its length and validated whenever it is read. -/
def load (store : LineageStore) : Except LineageError (Option SystemLineage) :=
  match store.file with
  | none => .ok none
  | some lineage => do
    ensure (store.encodedLength lineage + 1 ≤ maxLineageBytes)
      (.invalid "system lineage exceeds its size limit")
    lineage.validate
    pure (some lineage)

def advanceRevision (lineage : SystemLineage) : Except LineageError SystemLineage :=
  if lineage.revision < maxRevision then .ok { lineage with revision := lineage.revision + 1 }
  else .error (.invalid "system lineage revision cannot advance")

/-- `save_to`. -/
def save (store : LineageStore) (lineage : SystemLineage) : Except LineageError LineageStore := do
  lineage.validate
  ensure (store.encodedLength lineage ≤ maxLineageBytes)
    (.invalid "system lineage exceeds its size limit")
  pure { store with file := some lineage }

/-- Only a change advances the revision. -/
def revised (changed : Bool) (lineage : SystemLineage) : Except LineageError SystemLineage :=
  if changed then advanceRevision lineage else .ok lineage

/-- The file is written when something changed or when there was none. -/
def persist (store : LineageStore) (changed : Bool) (lineage : SystemLineage) :
    Except LineageError LineageStore :=
  if changed || store.file.isNone then store.save lineage else .ok store

def mutate (store : LineageStore) (mutation : LineageMutation) :
    Except LineageError (SystemLineage × LineageStore) := do
  let file ← store.load
  let (file, changed) ← mutation.apply file
  match file with
  | none => .error (.invalid "system lineage mutation produced no record")
  | some lineage => do
    let lineage ← revised changed lineage
    lineage.validate
    let store ← store.persist changed lineage
    pure (lineage, store)

theorem load_eq_ok {store : LineageStore} {file : Option SystemLineage} :
    store.load = .ok file ↔ file = store.file ∧ ∀ lineage ∈ store.file,
      store.encodedLength lineage + 1 ≤ maxLineageBytes ∧ lineage.validate = .ok () := by
  unfold load
  cases store.file with
  | none => simp [eq_comm]
  | some lineage =>
    simp only [bind_eq_ok, Option.mem_some_iff, forall_eq']
    constructor
    · rintro ⟨_, hlength, _, hvalid, ⟨⟩⟩
      exact ⟨rfl, of_decide_eq_true ((ensure_eq_ok _ _).mp hlength), hvalid⟩
    · rintro ⟨rfl, hlength, hvalid⟩
      exact ⟨(), (ensure_eq_ok _ _).mpr (decide_eq_true hlength), (), hvalid, rfl⟩

/-- What a mutation that succeeds has loaded, computed and stored. -/
theorem mutate_eq_ok {store store' : LineageStore} {mutation : LineageMutation}
    {lineage : SystemLineage} (h : store.mutate mutation = .ok (lineage, store')) :
    (∀ old ∈ store.file, old.validate = .ok ()) ∧ lineage.validate = .ok () ∧
      ∃ next changed, mutation.apply store.file = .ok (some next, changed) ∧
        lineage.nodes = next.nodes ∧ lineage.activations = next.activations ∧
        lineage.currentHeadId = next.currentHeadId ∧ (changed = false → lineage = next) ∧
        store' = if changed || store.file.isNone then { store with file := some lineage }
          else store := by
  unfold mutate at h
  obtain ⟨file, hload, h⟩ := bind_eq_ok.mp h
  obtain ⟨rfl, hfile⟩ := load_eq_ok.mp hload
  obtain ⟨⟨file', changed⟩, happly, h⟩ := bind_eq_ok.mp h
  cases file' with
  | none => cases h
  | some next =>
    obtain ⟨l, hadvance, h⟩ := bind_eq_ok.mp h
    obtain ⟨_, hvalid, h⟩ := bind_eq_ok.mp h
    obtain ⟨s, hsave, h⟩ := bind_eq_ok.mp h
    cases h
    refine ⟨fun old hold => (hfile old hold).2, hvalid, next, changed, happly, ?_⟩
    have hnext : lineage.nodes = next.nodes ∧ lineage.activations = next.activations ∧
        lineage.currentHeadId = next.currentHeadId ∧ (changed = false → lineage = next) := by
      cases changed with
      | false =>
        cases hadvance
        exact ⟨rfl, rfl, rfl, fun _ => rfl⟩
      | true =>
        simp only [revised, if_true, advanceRevision] at hadvance
        split at hadvance
        · cases hadvance
          exact ⟨rfl, rfl, rfl, fun h => by cases h⟩
        · cases hadvance
    refine ⟨hnext.1, hnext.2.1, hnext.2.2.1, hnext.2.2.2, ?_⟩
    unfold persist at hsave
    split_ifs at hsave ⊢ with hsaved
    · simp only [save, bind_eq_ok] at hsave
      obtain ⟨_, _, _, _, hpure⟩ := hsave
      exact (Except.ok.inj hpure).symm
    · exact (Except.ok.inj hsave).symm

end LineageStore

section Activations

theorem checkActivations_nodup {nodeIds : List DeploymentId} {seen : List String}
    {events : List ActivationEvent} (h : checkActivations nodeIds seen events = .ok ()) :
    (events.map ActivationEvent.transactionId).Nodup ∧
      ∀ event ∈ events, event.transactionId ∉ seen := by
  induction events generalizing seen with
  | nil => simp
  | cons event events ih =>
    simp only [checkActivations, bind_eq_ok_unit, ensure_eq_ok] at h
    obtain ⟨-, hnew, -, hrest⟩ := h
    obtain ⟨hnodup, hnotin⟩ := ih hrest
    have hunseen : event.transactionId ∉ seen := by
      simp only [Bool.and_eq_true, Bool.not_eq_eq_eq_not, Bool.not_true, List.contains_eq_mem,
        decide_eq_false_iff_not] at hnew
      exact hnew.2
    refine ⟨?_, ?_⟩
    · rw [List.map_cons, List.nodup_cons]
      refine ⟨fun hmem => ?_, hnodup⟩
      obtain ⟨other, hother, heq⟩ := List.mem_map.mp hmem
      exact hnotin other hother (heq ▸ List.mem_cons_self)
    · intro other hother
      rcases List.mem_cons.mp hother with rfl | hother
      · exact hunseen
      · exact fun hseen => hnotin other hother (List.mem_cons_of_mem _ hseen)

theorem SystemLineage.activations_nodup {lineage : SystemLineage}
    (h : lineage.validate = .ok ()) :
    (lineage.activations.map ActivationEvent.transactionId).Nodup := by
  simp only [SystemLineage.validate, bind_eq_ok_unit] at h
  exact (checkActivations_nodup h.2.2.2.2.2.2).1

/-- With distinct keys the elements of one key are the one element that has it. -/
theorem filter_key_eq_singleton {α β : Type} [DecidableEq β] {key : α → β} {l : List α} {a : α}
    (hnodup : (l.map key).Nodup) (ha : a ∈ l) : l.filter (fun x => key x == key a) = [a] := by
  induction l with
  | nil => cases ha
  | cons b l ih =>
    rw [List.map_cons, List.nodup_cons] at hnodup
    rcases List.mem_cons.mp ha with rfl | ha
    · have hrest : l.filter (fun x => key x == key a) = [] := by
        refine List.filter_eq_nil_iff.mpr fun x hx heq => hnodup.1 ?_
        exact List.mem_map.mpr ⟨x, hx, by simpa using heq⟩
      simp [hrest]
    · have hne : key b ≠ key a := fun heq => hnodup.1 (heq ▸ List.mem_map_of_mem ha)
      simpa [hne] using ih hnodup.2 ha

/-- The lineage has exactly one activation of the transaction, with this outcome. -/
def SystemLineage.Records (lineage : SystemLineage) (id : RollbackId)
    (outcome : ActivationOutcome) : Prop :=
  ∃ event, (lineage.activations.filter fun event => event.transactionId == id.hyphenated) =
    [event] ∧ event.outcome = outcome

/-- A recorded activation is in the file, and is the only one of its transaction. -/
theorem LineageStore.records_of_recordActivation {store store' : LineageStore}
    {transaction : RollbackTransaction} {outcome : ActivationOutcome} {at' : Timestamp}
    {lineage : SystemLineage}
    (h : store.mutate (.recordActivation transaction outcome at') = .ok (lineage, store')) :
    ∃ stored, store'.file = some stored ∧ stored.Records transaction.id outcome := by
  obtain ⟨hvalid, hvalid', next, changed, happly, -, hactivations, -, hsame, rfl⟩ :=
    mutate_eq_ok h
  cases hfile : store.file with
  | none =>
    rw [hfile] at happly
    cases happly
  | some old =>
    simp only [hfile, LineageMutation.apply, LineageMutation.onExisting, bind_eq_ok] at happly
    obtain ⟨⟨changed', flag⟩, hactivate, hpure⟩ := happly
    cases hpure
    unfold LineageMutation.activate at hactivate
    cases hfind : old.activations.find? fun event =>
        event.transactionId == transaction.id.hyphenated with
    | some existing =>
      simp only [hfind] at hactivate
      split_ifs at hactivate with houtcome
      cases hactivate
      have hid : existing.transactionId = transaction.id.hyphenated := by
        simpa using List.find?_some hfind
      refine ⟨old, by simp [hfile], existing, ?_, houtcome⟩
      rw [← hid]
      exact filter_key_eq_singleton (SystemLineage.activations_nodup (hvalid old hfile))
        (List.mem_of_find?_eq_some hfind)
    | none =>
      simp only [hfind] at hactivate
      split_ifs at hactivate with hknown
      cases hactivate
      refine ⟨lineage, by simp, ⟨transaction.id.hyphenated, old.currentHeadId,
        transaction.targetDeploymentId, transaction.fallbackDeploymentId, transaction.createdAt,
        at', outcome⟩, ?_, rfl⟩
      rw [hactivations, List.filter_append, List.filter_eq_nil_iff.mpr
        (List.find?_eq_none.mp hfind)]
      simp

end Activations

section Removal

namespace LineageMutation

variable {id : DeploymentId} {at' : Timestamp}

theorem map_setRemoved {β : Type} (f : LineageNode → β) (nodes : List LineageNode)
    (hf : ∀ node : LineageNode, f { node with snapshotAvailable := false, removedAt := some at' } =
      f node) : (setRemoved id at' nodes).map f = nodes.map f := by
  induction nodes with
  | nil => rfl
  | cons node nodes ih =>
    unfold setRemoved
    split_ifs
    · rw [List.map_cons, List.map_cons, hf]
    · rw [List.map_cons, List.map_cons, ih]

theorem checkNodes_setRemoved {seen : List DeploymentId} {nodes : List LineageNode}
    (h : checkNodes seen nodes = .ok ()) : checkNodes seen (setRemoved id at' nodes) = .ok () := by
  induction nodes generalizing seen with
  | nil => exact h
  | cons node nodes ih =>
    simp only [checkNodes, bind_eq_ok_unit] at h
    obtain ⟨hseen, hcheck, hrest⟩ := h
    unfold setRemoved
    split_ifs with hid
    · simp only [checkNodes, bind_eq_ok_unit]
      refine ⟨hseen, ?_, hrest⟩
      simp only [LineageNode.check, bind_eq_ok_unit, ensure_eq_ok] at hcheck ⊢
      exact ⟨hcheck.1, hcheck.2.1, rfl, hcheck.2.2.2⟩
    · simp only [checkNodes, bind_eq_ok_unit]
      exact ⟨hseen, hcheck, ih hrest⟩

/-- The parent that `validateAcyclic` finds for an identifier. -/
theorem parent_setRemoved (nodes : List LineageNode) (other : DeploymentId) :
    (KeyedLists.entry LineageNode.recoveryPointId (setRemoved id at' nodes) other).bind
        LineageNode.parentId =
      (KeyedLists.entry LineageNode.recoveryPointId nodes other).bind LineageNode.parentId :=
  KeyedLists.entry_bind_congr (map_setRemoved _ nodes fun _ => rfl) other

theorem length_setRemoved (nodes : List LineageNode) :
    (setRemoved id at' nodes).length = nodes.length := by
  have hmap : (setRemoved id at' nodes).map (fun _ => ()) = nodes.map fun _ => () :=
    map_setRemoved _ nodes fun _ => rfl
  simpa using congrArg List.length hmap

end LineageMutation

/-- Marking a snapshot as removed keeps a lineage valid, whatever its revision is. -/
theorem SystemLineage.validate_setRemoved {lineage : SystemLineage} {id : DeploymentId}
    {at' : Timestamp} {revision : ℕ} (h : lineage.validate = .ok ()) :
    ({ lineage with
      nodes := LineageMutation.setRemoved id at' lineage.nodes
      revision := revision } : SystemLineage).validate = .ok () := by
  have hids : (LineageMutation.setRemoved id at' lineage.nodes).map LineageNode.recoveryPointId =
      lineage.nodes.map LineageNode.recoveryPointId :=
    LineageMutation.map_setRemoved _ _ fun _ => rfl
  have hparents : (LineageMutation.setRemoved id at' lineage.nodes).map LineageNode.parentId =
      lineage.nodes.map LineageNode.parentId :=
    LineageMutation.map_setRemoved _ _ fun _ => rfl
  simp only [validate, bind_eq_ok_unit, ensure_eq_ok] at h ⊢
  obtain ⟨hschema, hlimit, hnodes, hhead, hparent, hacyclic, hactivations⟩ := h
  simp only [nodeIds, hids] at hhead hparent hactivations ⊢
  refine ⟨hschema, ?_, LineageMutation.checkNodes_setRemoved hnodes, hhead, ?_, ?_, hactivations⟩
  · simpa [LineageMutation.length_setRemoved] using hlimit
  · have hall : ∀ nodes : List LineageNode, (nodes.all fun node => node.parentId.all
        (lineage.nodes.map LineageNode.recoveryPointId).contains) =
        (nodes.map LineageNode.parentId).all fun parent => parent.all
          (lineage.nodes.map LineageNode.recoveryPointId).contains := by
      intro nodes
      rw [List.all_map]
      rfl
    rw [hall, hparents, ← hall]
    exact hparent
  · unfold validateAcyclic at hacyclic ⊢
    simp only [LineageMutation.length_setRemoved, hids, LineageMutation.parent_setRemoved]
    exact hacyclic

namespace LineageStore

variable {store : LineageStore} {lineage : SystemLineage} {id : DeploymentId} {at' : Timestamp}

/-- The lineage that marks a snapshot as removed. -/
def marked (lineage : SystemLineage) (id : DeploymentId) (at' : Timestamp) : SystemLineage :=
  { lineage with
    nodes := LineageMutation.setRemoved id at' lineage.nodes
    revision := lineage.revision + 1 }

theorem load_of_fits (hfile : store.file = some lineage) (hvalid : lineage.validate = .ok ())
    (hfits : store.encodedLength lineage + 1 ≤ maxLineageBytes) : store.load = .ok (some lineage) :=
  load_eq_ok.mpr ⟨hfile.symm, fun l hl => by
    rw [hfile] at hl
    cases hl
    exact ⟨hfits, hvalid⟩⟩

/-- What a mutation does after its change has been computed. -/
theorem mutate_of_apply {file : Option SystemLineage} {mutation : LineageMutation}
    {changed : Bool} (hload : store.load = .ok file)
    (happly : mutation.apply file = .ok (some lineage, changed)) :
    store.mutate mutation = (do
      let lineage ← revised changed lineage
      lineage.validate
      let store ← store.persist changed lineage
      pure (lineage, store)) := by
  rw [mutate, hload]
  show (mutation.apply file >>= _) = _
  rw [happly]
  rfl

theorem mutate_of_error {file : Option SystemLineage} {mutation : LineageMutation}
    {e : LineageError} (hload : store.load = .ok file) (happly : mutation.apply file = .error e) :
    store.mutate mutation = .error e := by
  rw [mutate, hload]
  show (mutation.apply file >>= _) = _
  rw [happly]
  rfl

/-- A change that changes nothing succeeds on a valid file. -/
theorem mutate_unchanged {mutation : LineageMutation} (hfile : store.file = some lineage)
    (hload : store.load = .ok (some lineage)) (hvalid : lineage.validate = .ok ())
    (happly : mutation.apply (some lineage) = .ok (some lineage, false)) :
    store.mutate mutation = .ok (lineage, store) := by
  have hpersist : store.persist false lineage = .ok store := by
    rw [persist, hfile]
    rfl
  rw [mutate_of_apply hload happly]
  show (lineage.validate >>= fun _ => store.persist false lineage >>= fun s => pure (lineage, s)) = _
  rw [hvalid]
  show (store.persist false lineage >>= fun s => pure (lineage, s)) = _
  rw [hpersist]
  rfl

/-- A file that fits and is valid is initialized already. -/
theorem mutate_ensureInitialized (hfile : store.file = some lineage)
    (hvalid : lineage.validate = .ok ())
    (hfits : store.encodedLength lineage + 1 ≤ maxLineageBytes)
    (deployments : List DeploymentRecord) :
    store.mutate (.ensureInitialized deployments) = .ok (lineage, store) :=
  mutate_unchanged hfile (load_of_fits hfile hvalid hfits) hvalid rfl

/-- Saving the marked lineage needs a revision and room in the file. -/
theorem mutate_marks_iff (hload : store.load = .ok (some lineage))
    (hvalid : lineage.validate = .ok ())
    (happly : (LineageMutation.markSnapshotRemoved id at').apply (some lineage) =
      .ok (some { lineage with nodes := LineageMutation.setRemoved id at' lineage.nodes }, true)) :
    (∃ r, store.mutate (.markSnapshotRemoved id at') = .ok r) ↔
      lineage.revision < maxRevision ∧
        store.encodedLength (marked lineage id at') ≤ maxLineageBytes := by
  have hmarked : (marked lineage id at').validate = .ok () :=
    SystemLineage.validate_setRemoved hvalid
  have hrevised : revised true
      { lineage with nodes := LineageMutation.setRemoved id at' lineage.nodes } =
        if lineage.revision < maxRevision then .ok (marked lineage id at')
        else .error (.invalid "system lineage revision cannot advance") := rfl
  rw [mutate_of_apply hload happly, hrevised]
  by_cases hrevision : lineage.revision < maxRevision
  · have hrest : (do
        let lineage ← (.ok (marked lineage id at') : Except LineageError SystemLineage)
        lineage.validate
        let store ← store.persist true lineage
        pure (lineage, store)) = (store.persist true (marked lineage id at') >>= fun s =>
          pure (marked lineage id at', s)) := by
      show ((marked lineage id at').validate >>= fun _ => _) = _
      rw [hmarked]
      rfl
    rw [if_pos hrevision, hrest]
    have hsave : store.persist true (marked lineage id at') =
        if store.encodedLength (marked lineage id at') ≤ maxLineageBytes then
          .ok { store with file := some (marked lineage id at') }
        else .error (.invalid "system lineage exceeds its size limit") := by
      show ((marked lineage id at').validate >>= fun _ => _) = _
      rw [hmarked]
      by_cases hsize : store.encodedLength (marked lineage id at') ≤ maxLineageBytes
      · simp [ensure, hsize, bind, Except.bind, pure, Except.pure]
      · simp [ensure, hsize, bind, Except.bind]
    rw [hsave]
    by_cases hsize : store.encodedLength (marked lineage id at') ≤ maxLineageBytes <;>
      simp [hsize, hrevision, bind, Except.bind, pure, Except.pure]
  · rw [if_neg hrevision]
    simp [hrevision, bind, Except.bind]

/-- When a snapshot can be marked as removed: its node is there, and unless it is marked
already, the changed lineage has a revision and fits into the file. -/
theorem mutate_markSnapshotRemoved_iff (hfile : store.file = some lineage)
    (hvalid : lineage.validate = .ok ()) :
    (∃ r, store.mutate (.markSnapshotRemoved id at') = .ok r) ↔
      store.encodedLength lineage + 1 ≤ maxLineageBytes ∧
      ∃ node, lineage.nodes.find? (fun node => node.recoveryPointId == id) = some node ∧
        (node.snapshotAvailable = false ∨ lineage.revision < maxRevision ∧
          store.encodedLength (marked lineage id at') ≤ maxLineageBytes) := by
  by_cases hfits : store.encodedLength lineage + 1 ≤ maxLineageBytes
  · have hload := load_of_fits hfile hvalid hfits
    cases hnode : lineage.nodes.find? fun node => node.recoveryPointId == id with
    | none =>
      have happly : (LineageMutation.markSnapshotRemoved id at').apply (some lineage) =
          .error (.invalid "deleted system snapshot is missing from the lineage") := by
        simp only [LineageMutation.apply, LineageMutation.onExisting, LineageMutation.markRemoved,
          hnode]
        rfl
      simp [mutate_of_error hload happly]
    | some node =>
      cases havailable : node.snapshotAvailable with
      | false =>
        have happly : (LineageMutation.markSnapshotRemoved id at').apply (some lineage) =
            .ok (some lineage, false) := by
          simp only [LineageMutation.apply, LineageMutation.onExisting,
            LineageMutation.markRemoved, hnode, havailable]
          rfl
        simp [mutate_unchanged hfile hload hvalid happly, hfits, havailable]
      | true =>
        have happly : (LineageMutation.markSnapshotRemoved id at').apply (some lineage) =
            .ok (some { lineage with
              nodes := LineageMutation.setRemoved id at' lineage.nodes }, true) := by
          simp only [LineageMutation.apply, LineageMutation.onExisting,
            LineageMutation.markRemoved, hnode, havailable]
          rfl
        simp [mutate_marks_iff hload hvalid happly, hfits, havailable]
  · refine iff_of_false ?_ fun h => hfits h.1
    rintro ⟨⟨l, store'⟩, hr⟩
    obtain ⟨file, hload, -⟩ := bind_eq_ok.mp hr
    exact hfits ((load_eq_ok.mp hload).2 lineage hfile).1

end LineageStore

end Removal

end RecoveryEngine
