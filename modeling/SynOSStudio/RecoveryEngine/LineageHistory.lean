import SynOSStudio.KeyedLists.Correspondence
import SynOSStudio.RecoveryEngine.LineageForest

/-!
# The history in the lineage

The methods of the store that change a lineage, and what holds over any sequence of them: the
parents stay a forest, nothing recorded is lost, and the head moves only to a recorded point or to
an activated one.
-/

namespace RecoveryEngine

inductive HistoryOperation where
  | recordRecoveryPoint (record : DeploymentRecord)
  | recordDetachedRecoveryPoint (record : DeploymentRecord)
  | recordActivation (transaction : RollbackTransaction) (outcome : ActivationOutcome)
      (completedAt : Timestamp)
  | markSnapshotRemoved (recoveryPointId : DeploymentId) (removedAt : Timestamp)

namespace HistoryOperation

/-- The change of a loaded lineage, and whether there is one. -/
def change (lineage : SystemLineage) : HistoryOperation → Except LineageError (SystemLineage × Bool)
  | recordRecoveryPoint record =>
    if record.snapshotUuid.isNone then
      .error (.invalid "a lineage node requires a completed system snapshot")
    else .ok (LineageMutation.appendPoint record lineage)
  | recordDetachedRecoveryPoint record =>
    if record.snapshotUuid.isNone then
      .error (.invalid "a detached lineage node requires a completed system snapshot")
    else .ok (appendDetached record lineage)
  | recordActivation transaction outcome completedAt =>
    LineageMutation.activate transaction outcome completedAt lineage
  | markSnapshotRemoved recoveryPointId removedAt =>
    LineageMutation.markRemoved recoveryPointId removedAt lineage

/-- What `mutate` makes of the lineage that it has loaded, and then saves. -/
def run (operation : HistoryOperation) (lineage : SystemLineage) :
    Except LineageError SystemLineage := do
  let (next, changed) ← operation.change lineage
  let next ← LineageStore.revised changed next
  next.validate
  pure next

end HistoryOperation

/-- `LineageStore::mutate` with any closure. -/
def LineageStore.update (store : LineageStore)
    (mutation : Option SystemLineage → Except LineageError (Option SystemLineage × Bool)) :
    Except LineageError (SystemLineage × LineageStore) := do
  let file ← store.load
  let (file, changed) ← mutation file
  match file with
  | none => .error (.invalid "system lineage mutation produced no record")
  | some lineage => do
    let lineage ← revised changed lineage
    lineage.validate
    let store ← store.persist changed lineage
    pure (lineage, store)

theorem LineageStore.mutate_eq_update (store : LineageStore) (mutation : LineageMutation) :
    store.mutate mutation = store.update mutation.apply := rfl

section Effects

/-- The node that a recorded point gets. -/
def LineageNode.ofPoint (record : DeploymentRecord) (parentId : Option DeploymentId)
    (relation : LineageRelation) : LineageNode where
  recoveryPointId := record.id
  parentId := parentId
  relation := relation
  createdAt := record.createdAt
  kind := record.kind
  title := record.title
  snapshotAvailable := true
  removedAt := none

def ActivationEvent.ofTransaction (transaction : RollbackTransaction)
    (previousHeadId : Option DeploymentId) (outcome : ActivationOutcome)
    (completedAt : Timestamp) : ActivationEvent where
  transactionId := transaction.id.hyphenated
  previousHeadId := previousHeadId
  targetRecoveryPointId := transaction.targetDeploymentId
  safetyRecoveryPointId := transaction.fallbackDeploymentId
  scheduledAt := transaction.createdAt
  completedAt := completedAt
  outcome := outcome

/-- The snapshot that runs after the activation. -/
def ActivationOutcome.activated (transaction : RollbackTransaction) :
    ActivationOutcome → DeploymentId
  | confirmed => transaction.targetDeploymentId
  | reverted => transaction.fallbackDeploymentId

/-- All that an operation can do to a lineage, apart from leaving it as it is. -/
inductive Changes : HistoryOperation → SystemLineage → SystemLineage → Prop
  | recoveryPoint {record : DeploymentRecord} {lineage : SystemLineage}
      (present : record.snapshotUuid.isSome) (fresh : record.id ∉ lineage.nodeIds) :
      Changes (.recordRecoveryPoint record) lineage
        { lineage with
          nodes := lineage.nodes ++ [.ofPoint record lineage.currentHeadId .exact]
          currentHeadId := some record.id
          revision := lineage.revision + 1 }
  | detachedPoint {record : DeploymentRecord} {lineage : SystemLineage}
      (present : record.snapshotUuid.isSome) (fresh : record.id ∉ lineage.nodeIds) :
      Changes (.recordDetachedRecoveryPoint record) lineage
        { lineage with
          nodes := lineage.nodes ++ [.ofPoint record none .legacyUnknown]
          revision := lineage.revision + 1 }
  | activation {transaction : RollbackTransaction} {outcome : ActivationOutcome}
      {completedAt : Timestamp} {lineage : SystemLineage}
      (fresh : ∀ event ∈ lineage.activations, event.transactionId ≠ transaction.id.hyphenated)
      (target : transaction.targetDeploymentId ∈ lineage.nodeIds)
      (safety : transaction.fallbackDeploymentId ∈ lineage.nodeIds) :
      Changes (.recordActivation transaction outcome completedAt) lineage
        { lineage with
          activations := lineage.activations ++
            [.ofTransaction transaction lineage.currentHeadId outcome completedAt]
          currentHeadId := some (outcome.activated transaction)
          revision := lineage.revision + 1 }
  | removal {id : DeploymentId} {removedAt : Timestamp} {lineage : SystemLineage}
      {node : LineageNode}
      (found : lineage.nodes.find? (fun node => node.recoveryPointId == id) = some node)
      (available : node.snapshotAvailable) :
      Changes (.markSnapshotRemoved id removedAt) lineage
        { lineage with
          nodes := LineageMutation.setRemoved id removedAt lineage.nodes
          revision := lineage.revision + 1 }

/-- The operation has nothing left to do. -/
def HistoryOperation.Settled (lineage : SystemLineage) : HistoryOperation → Prop
  | recordRecoveryPoint record => record.snapshotUuid.isSome ∧ record.id ∈ lineage.nodeIds
  | recordDetachedRecoveryPoint record => record.snapshotUuid.isSome ∧ record.id ∈ lineage.nodeIds
  | recordActivation transaction outcome _ => ∃ event ∈ lineage.activations,
      event.transactionId = transaction.id.hyphenated ∧ event.outcome = outcome
  | markSnapshotRemoved id _ => ∃ node ∈ lineage.nodes,
      node.recoveryPointId = id ∧ node.snapshotAvailable = false

/-- The operation tells another outcome of an activation that is recorded. -/
def HistoryOperation.Contradicts (lineage : SystemLineage) : HistoryOperation → Prop
  | recordActivation transaction outcome _ => ∃ event ∈ lineage.activations,
      event.transactionId = transaction.id.hyphenated ∧ event.outcome ≠ outcome
  | _ => False

/-- A valid record with a snapshot, a transaction between nodes, the removal of a node. -/
def HistoryOperation.Allowed (lineage : SystemLineage) : HistoryOperation → Prop
  | recordRecoveryPoint record => record.validate = .ok () ∧ record.snapshotUuid.isSome
  | recordDetachedRecoveryPoint record => record.validate = .ok () ∧ record.snapshotUuid.isSome
  | recordActivation transaction _ completedAt =>
    transaction.targetDeploymentId ∈ lineage.nodeIds ∧
      transaction.fallbackDeploymentId ∈ lineage.nodeIds ∧ transaction.createdAt ≤ completedAt
  | markSnapshotRemoved id _ => id ∈ lineage.nodeIds

variable {operation : HistoryOperation} {lineage next : SystemLineage} {id : DeploymentId}

theorem knows_iff : lineage.knows id = true ↔ id ∈ lineage.nodeIds := by
  simp [SystemLineage.knows, SystemLineage.nodeIds]

theorem present {record : DeploymentRecord} (h : ¬ record.snapshotUuid.isNone) :
    record.snapshotUuid.isSome :=
  Option.isSome_iff_ne_none.mpr (by simpa using h)

theorem change_false (h : operation.change lineage = .ok (next, false)) :
    next = lineage ∧ operation.Settled lineage := by
  cases operation with
  | recordRecoveryPoint record =>
    simp only [HistoryOperation.change, LineageMutation.appendPoint] at h
    split_ifs at h with missing known
    · cases h
      exact ⟨rfl, present missing, knows_iff.mp known⟩
    · cases h
  | recordDetachedRecoveryPoint record =>
    simp only [HistoryOperation.change, appendDetached] at h
    split_ifs at h with missing known
    · cases h
      exact ⟨rfl, present missing, knows_iff.mp known⟩
    · cases h
  | recordActivation transaction outcome completedAt =>
    simp only [HistoryOperation.change, LineageMutation.activate] at h
    split at h
    · rename_i event found
      split_ifs at h with same
      cases h
      exact ⟨rfl, event, List.mem_of_find?_eq_some found, by simpa using List.find?_some found,
        same⟩
    · split_ifs at h
      cases h
  | markSnapshotRemoved id removedAt =>
    simp only [HistoryOperation.change, LineageMutation.markRemoved] at h
    split at h
    · cases h
    · rename_i node found
      split_ifs at h with available
      · cases h
      · cases h
        exact ⟨rfl, node, List.mem_of_find?_eq_some found, by simpa using List.find?_some found,
          by simpa using available⟩

theorem change_true (h : operation.change lineage = .ok (next, true)) :
    next.revision = lineage.revision ∧
      Changes operation lineage { next with revision := next.revision + 1 } := by
  cases operation with
  | recordRecoveryPoint record =>
    simp only [HistoryOperation.change, LineageMutation.appendPoint] at h
    split_ifs at h with missing known
    · cases h
    · cases h
      exact ⟨rfl, .recoveryPoint (present missing) fun hmem => known (knows_iff.mpr hmem)⟩
  | recordDetachedRecoveryPoint record =>
    simp only [HistoryOperation.change, appendDetached] at h
    split_ifs at h with missing known
    · cases h
    · cases h
      exact ⟨rfl, .detachedPoint (present missing) fun hmem => known (knows_iff.mpr hmem)⟩
  | recordActivation transaction outcome completedAt =>
    simp only [HistoryOperation.change, LineageMutation.activate] at h
    split at h
    · split_ifs at h
      cases h
    · rename_i found
      split_ifs at h with known
      simp only [Bool.and_eq_true, knows_iff] at known
      cases h
      have fresh := List.find?_eq_none.mp found
      cases outcome with
      | confirmed => exact ⟨rfl, .activation (by simpa using fresh) known.1 known.2⟩
      | reverted => exact ⟨rfl, .activation (by simpa using fresh) known.1 known.2⟩
  | markSnapshotRemoved id removedAt =>
    simp only [HistoryOperation.change, LineageMutation.markRemoved] at h
    split at h
    · cases h
    · rename_i node found
      split_ifs at h with available
      · cases h
        exact ⟨rfl, .removal found available⟩
      · cases h

/-- On a lineage that it is allowed on, an operation refuses only to contradict the record. -/
theorem change_error (allowed : operation.Allowed lineage) {e : LineageError}
    (h : operation.change lineage = .error e) : operation.Contradicts lineage ∧
      e = .invalid "an activation transaction changed its terminal outcome" := by
  cases operation with
  | recordRecoveryPoint record =>
    have present := allowed.2
    simp [HistoryOperation.change, Option.isSome_iff_ne_none.mp present] at h
  | recordDetachedRecoveryPoint record =>
    have present := allowed.2
    simp [HistoryOperation.change, Option.isSome_iff_ne_none.mp present] at h
  | recordActivation transaction outcome completedAt =>
    simp only [HistoryOperation.change, LineageMutation.activate] at h
    split at h
    · rename_i event found
      split_ifs at h with same
      cases h
      exact ⟨⟨event, List.mem_of_find?_eq_some found, by simpa using List.find?_some found, same⟩,
        rfl⟩
    · simp [knows_iff.mpr allowed.1, knows_iff.mpr allowed.2.1] at h
  | markSnapshotRemoved id removedAt =>
    simp only [HistoryOperation.change, LineageMutation.markRemoved] at h
    split at h
    · rename_i found
      have unknown := List.find?_eq_none.mp found
      obtain ⟨node, hnode, rfl⟩ := List.mem_map.mp allowed
      exact absurd (unknown node hnode) (by simp)
    · split_ifs at h

theorem run_eq_ok (h : operation.run lineage = .ok next) : next.validate = .ok () ∧
    ((next = lineage ∧ operation.Settled lineage) ∨ Changes operation lineage next) := by
  obtain ⟨⟨middle, changed⟩, change, h⟩ := bind_eq_ok.mp h
  obtain ⟨revised, hrevised, h⟩ := bind_eq_ok.mp h
  obtain ⟨_, valid, h⟩ := bind_eq_ok.mp h
  cases h
  refine ⟨valid, ?_⟩
  cases changed with
  | false =>
    cases hrevised
    exact Or.inl (change_false change)
  | true =>
    simp only [LineageStore.revised, if_true, LineageStore.advanceRevision] at hrevised
    split_ifs at hrevised
    cases hrevised
    exact Or.inr (change_true change).2

/-- An operation with nothing left to do succeeds and does nothing. -/
theorem settled_run (valid : lineage.Valid) (settled : operation.Settled lineage) :
    operation.run lineage = .ok lineage := by
  have change : operation.change lineage = .ok (lineage, false) := by
    cases operation with
    | recordRecoveryPoint record =>
      simp [HistoryOperation.change, LineageMutation.appendPoint, knows_iff.mpr settled.2,
        Option.isSome_iff_ne_none.mp settled.1]
    | recordDetachedRecoveryPoint record =>
      simp [HistoryOperation.change, appendDetached, knows_iff.mpr settled.2,
        Option.isSome_iff_ne_none.mp settled.1]
    | recordActivation transaction outcome completedAt =>
      obtain ⟨event, hevent, id, same⟩ := settled
      simp only [HistoryOperation.change, LineageMutation.activate]
      split
      · rename_i existing found
        have same' : existing = event := List.inj_on_of_nodup_map valid.transactions
          (List.mem_of_find?_eq_some found) hevent
          ((by simpa using List.find?_some found : existing.transactionId = _).trans id.symm)
        rw [same', if_pos same]
      · rename_i found
        exact absurd (List.find?_eq_none.mp found event hevent) (by simp [id])
    | markSnapshotRemoved id removedAt =>
      obtain ⟨node, hnode, hid, removed⟩ := settled
      simp only [HistoryOperation.change, LineageMutation.markRemoved]
      split
      · rename_i found
        exact absurd (List.find?_eq_none.mp found node hnode) (by simp [hid])
      · rename_i existing found
        have same : existing = node := List.inj_on_of_nodup_map valid.forest.distinct
          (List.mem_of_find?_eq_some found) hnode
          ((by simpa using List.find?_some found : existing.recoveryPointId = _).trans hid.symm)
        rw [same, removed]
        rfl
  refine bind_eq_ok.mpr ⟨_, change, bind_eq_ok.mpr ⟨lineage, rfl, bind_eq_ok.mpr ⟨(), ?_, rfl⟩⟩⟩
  exact SystemLineage.validate_iff.mpr valid

end Effects

section Validity

variable {operation : HistoryOperation} {lineage next : SystemLineage}

/-- There is room for one more node and one more activation. -/
def SystemLineage.BelowLimits (lineage : SystemLineage) : Prop :=
  lineage.nodes.length < maxLineageNodes ∧ lineage.activations.length < maxActivationEvents

theorem title_of_validate {record : DeploymentRecord} (h : record.validate = .ok ()) :
    invalidText record.title 120 = false := by
  simp only [DeploymentRecord.validate, bind_eq_ok_unit, ensure_eq_ok] at h
  simpa using h.2.1

theorem checked_ofPoint {record : DeploymentRecord} (h : record.validate = .ok ())
    {parentId : Option DeploymentId} {relation : LineageRelation}
    (self : parentId ≠ some record.id)
    (legacy : relation = .legacyUnknown → parentId = none) :
    (LineageNode.ofPoint record parentId relation).check = .ok () := by
  simp only [LineageNode.check, bind_eq_ok_unit, ensure_eq_ok, LineageNode.ofPoint,
    title_of_validate h]
  refine ⟨by simpa using self, rfl, rfl, ?_⟩
  cases relation with
  | exact => rfl
  | legacyUnknown => simp [legacy rfl]

theorem ActivationEvent.Consistent.mono {ids ids' : List DeploymentId} {event : ActivationEvent}
    (h : event.Consistent ids) (more : ∀ id ∈ ids, id ∈ ids') : event.Consistent ids' :=
  ⟨h.canonical, h.ordered, more _ h.target, more _ h.safety, fun head hp =>
    more head (h.previous head hp)⟩

/-- A fresh node below a known one, or without a parent, is one more leaf or tree. -/
theorem Forest.append {nodes : List LineageNode} {node : LineageNode} (forest : Forest nodes)
    (fresh : node.recoveryPointId ∉ nodes.map LineageNode.recoveryPointId)
    (known : ∀ parent, node.parentId = some parent →
      parent ∈ nodes.map LineageNode.recoveryPointId) : Forest (nodes ++ [node]) where
  distinct := by
    rw [List.map_append, List.nodup_append]
    refine ⟨forest.distinct, by simp, fun id hid other hother => ?_⟩
    rintro rfl
    exact fresh (List.mem_singleton.mp hother ▸ hid)
  closed := by
    intro other hother parent up
    rw [List.map_append]
    refine List.mem_append_left _ ?_
    rcases List.mem_append.mp hother with hother | hother
    · exact forest.closed other hother parent up
    · exact known parent (List.mem_singleton.mp hother ▸ up)
  noCycle := by
    refine forest.noCycle.append_leaf fun other hother up => fresh ?_
    rcases List.mem_append.mp hother with hother | hother
    · exact forest.closed other hother _ up
    · exact known _ (List.mem_singleton.mp hother ▸ up)

/-- Adding a node keeps a lineage valid. -/
theorem SystemLineage.Valid.append {node : LineageNode} {head : Option DeploymentId} {revision : ℕ}
    (valid : lineage.Valid) (room : lineage.nodes.length < maxLineageNodes)
    (fresh : node.recoveryPointId ∉ lineage.nodeIds) (checked : node.check = .ok ())
    (known : ∀ parent, node.parentId = some parent → parent ∈ lineage.nodeIds)
    (headed : ∀ id, head = some id → id ∈ lineage.nodeIds ∨ id = node.recoveryPointId) :
    SystemLineage.Valid { lineage with
      nodes := lineage.nodes ++ [node], currentHeadId := head, revision := revision } where
  schema := valid.schema
  fewNodes := by simpa using room
  fewActivations := valid.fewActivations
  forest := valid.forest.append fresh known
  checked other hother := by
    rcases List.mem_append.mp hother with hother | hother
    · exact valid.checked other hother
    · exact List.mem_singleton.mp hother ▸ checked
  head id h := by
    simp only [nodeIds, List.map_append, List.mem_append]
    exact (headed id h).imp_right fun same => by simp [same]
  transactions := valid.transactions
  consistent event hevent := (valid.consistent event hevent).mono fun id hid => by
    simp only [nodeIds, List.map_append, List.mem_append]
    exact Or.inl hid

theorem Changes.valid (changes : Changes operation lineage next) (valid : lineage.Valid)
    (room : lineage.BelowLimits) (allowed : operation.Allowed lineage) : next.Valid := by
  cases changes with
  | @recoveryPoint record _ _ fresh =>
    refine valid.append room.1 fresh (checked_ofPoint allowed.1 ?_ nofun) valid.head ?_
    · exact fun self => fresh (valid.head _ self)
    · rintro id ⟨⟩
      exact Or.inr rfl
  | @detachedPoint record _ _ fresh =>
    exact valid.append room.1 fresh (checked_ofPoint allowed.1 nofun fun _ => rfl) nofun
      fun id head => Or.inl (valid.head id head)
  | @activation transaction outcome completedAt _ fresh target safety =>
    refine ⟨valid.schema, valid.fewNodes, ?_, valid.forest, valid.checked, ?_, ?_, ?_⟩
    · simpa using room.2
    · rintro id ⟨⟩
      cases outcome with
      | confirmed => exact target
      | reverted => exact safety
    · simp only [List.map_append, List.nodup_append]
      refine ⟨valid.transactions, by simp, fun id hid other hother => ?_⟩
      obtain ⟨event, hevent, rfl⟩ := List.mem_map.mp hid
      rw [List.map_singleton, List.mem_singleton] at hother
      exact hother ▸ fresh event hevent
    · intro event hevent
      rcases List.mem_append.mp hevent with hevent | hevent
      · exact valid.consistent event hevent
      · rw [List.mem_singleton.mp hevent]
        exact ⟨canonicalUuid_hyphenated _, allowed.2.2, target, safety, valid.head⟩
  | removal found available =>
    exact SystemLineage.validate_iff.mp
      (SystemLineage.validate_setRemoved (SystemLineage.validate_iff.mpr valid))

/-- An operation that is allowed never fails the validation: it fails only to contradict the
record, or when no revision is left. -/
theorem run_error (valid : lineage.Valid) (room : lineage.BelowLimits)
    (allowed : operation.Allowed lineage) {e : LineageError}
    (h : operation.run lineage = .error e) :
    (operation.Contradicts lineage ∧
      e = .invalid "an activation transaction changed its terminal outcome") ∨
    (maxRevision ≤ lineage.revision ∧ e = .invalid "system lineage revision cannot advance") := by
  cases change : operation.change lineage with
  | error e' =>
    rw [HistoryOperation.run, change] at h
    cases h
    exact Or.inl (change_error allowed change)
  | ok result =>
    obtain ⟨middle, changed⟩ := result
    cases changed with
    | false =>
      rw [settled_run valid (change_false change).2] at h
      cases h
    | true =>
      obtain ⟨same, changes⟩ := change_true change
      have accepted := SystemLineage.validate_iff.mpr (changes.valid valid room allowed)
      rw [HistoryOperation.run, change] at h
      change (LineageStore.advanceRevision middle >>= fun next =>
        next.validate >>= fun _ => pure next) = .error e at h
      unfold LineageStore.advanceRevision at h
      split_ifs at h with revision
      · change (SystemLineage.validate _ >>= fun _ => pure _) = _ at h
        rw [accepted] at h
        cases h
      · cases h
        exact Or.inr ⟨by omega, rfl⟩

end Validity

section Effects

variable {operation other : HistoryOperation} {lineage next : SystemLineage} {id : DeploymentId}

/-- A node is as it was, or its snapshot has been removed. -/
def LineageNode.Kept (old new : LineageNode) : Prop :=
  new = old ∨ old.snapshotAvailable ∧ ∃ removedAt,
    new = { old with snapshotAvailable := false, removedAt := some removedAt }

/-- Nodes and activations are only appended, and nodes lose their snapshots. -/
structure Extends (old new : SystemLineage) : Prop where
  nodes : ∃ kept, kept <+: new.nodes ∧ List.Forall₂ LineageNode.Kept old.nodes kept
  activations : old.activations <+: new.activations

theorem LineageNode.Kept.refl (node : LineageNode) : node.Kept node := Or.inl rfl

theorem LineageNode.Kept.trans {a b c : LineageNode} (hab : a.Kept b) (hbc : b.Kept c) :
    a.Kept c := by
  rcases hab with rfl | ⟨available, removedAt, rfl⟩
  · exact hbc
  · rcases hbc with rfl | ⟨available', -⟩
    · exact Or.inr ⟨available, removedAt, rfl⟩
    · cases available'

theorem LineageNode.Kept.id_eq {old new : LineageNode} (h : old.Kept new) :
    new.recoveryPointId = old.recoveryPointId := by
  rcases h with rfl | ⟨-, removedAt, rfl⟩ <;> rfl

theorem LineageNode.Kept.removed {old new : LineageNode} (h : old.Kept new)
    (removed : old.snapshotAvailable = false) : new.snapshotAvailable = false := by
  rcases h with rfl | ⟨-, removedAt, rfl⟩
  · exact removed
  · rfl

theorem Extends.refl (lineage : SystemLineage) : Extends lineage lineage where
  nodes := ⟨lineage.nodes, List.prefix_rfl, List.forall₂_same.mpr fun node _ => .refl node⟩
  activations := List.prefix_rfl

theorem Extends.trans {a b c : SystemLineage} (hab : Extends a b) (hbc : Extends b c) :
    Extends a c where
  nodes := by
    obtain ⟨kept, before, first⟩ := hab.nodes
    obtain ⟨kept', before', second⟩ := hbc.nodes
    have second := List.forall₂_take kept.length second
    rw [← List.prefix_iff_eq_take.mp before] at second
    exact ⟨kept'.take kept.length, (List.take_prefix _ _).trans before',
      KeyedLists.forall₂_trans (fun a b c => @LineageNode.Kept.trans a b c) first second⟩
  activations := hab.activations.trans hbc.activations

theorem Extends.mem_nodes {old new : SystemLineage} (h : Extends old new) {node : LineageNode}
    (hnode : node ∈ old.nodes) : ∃ node' ∈ new.nodes, node.Kept node' := by
  obtain ⟨kept, before, corresponds⟩ := h.nodes
  obtain ⟨node', hnode', same⟩ := KeyedLists.exists_of_forall₂ corresponds hnode
  exact ⟨node', before.subset hnode', same⟩

theorem Extends.mem_nodeIds {old new : SystemLineage} (h : Extends old new)
    (hid : id ∈ old.nodeIds) : id ∈ new.nodeIds := by
  obtain ⟨node, hnode, rfl⟩ := List.mem_map.mp hid
  obtain ⟨node', hnode', same⟩ := h.mem_nodes hnode
  exact same.id_eq ▸ List.mem_map_of_mem hnode'

/-- What has been done stays done. -/
theorem HistoryOperation.Settled.extends {old new : SystemLineage}
    (settled : operation.Settled old) (h : Extends old new) : operation.Settled new := by
  cases operation with
  | recordRecoveryPoint record => exact ⟨settled.1, h.mem_nodeIds settled.2⟩
  | recordDetachedRecoveryPoint record => exact ⟨settled.1, h.mem_nodeIds settled.2⟩
  | recordActivation transaction outcome completedAt =>
    obtain ⟨event, hevent, same⟩ := settled
    exact ⟨event, h.activations.subset hevent, same⟩
  | markSnapshotRemoved id removedAt =>
    obtain ⟨node, hnode, hid, removed⟩ := settled
    obtain ⟨node', hnode', kept⟩ := h.mem_nodes hnode
    exact ⟨node', hnode', kept.id_eq.trans hid, kept.removed removed⟩

theorem setRemoved_kept {removedAt : Timestamp} {node : LineageNode} {nodes : List LineageNode}
    (found : nodes.find? (fun node => node.recoveryPointId == id) = some node)
    (available : node.snapshotAvailable) :
    List.Forall₂ LineageNode.Kept nodes (LineageMutation.setRemoved id removedAt nodes) := by
  induction nodes with
  | nil => exact .nil
  | cons first nodes ih =>
    unfold LineageMutation.setRemoved
    split_ifs with same
    · rw [List.find?_cons_of_pos (by simp [same])] at found
      cases found
      exact .cons (Or.inr ⟨available, removedAt, rfl⟩)
        (List.forall₂_same.mpr fun node _ => .refl node)
    · rw [List.find?_cons_of_neg (by simp [same])] at found
      exact .cons (.refl first) (ih found)

theorem setRemoved_settled {removedAt : Timestamp} {nodes : List LineageNode}
    (known : id ∈ nodes.map LineageNode.recoveryPointId) :
    ∃ node ∈ LineageMutation.setRemoved id removedAt nodes,
      node.recoveryPointId = id ∧ node.snapshotAvailable = false := by
  induction nodes with
  | nil => simp at known
  | cons first nodes ih =>
    unfold LineageMutation.setRemoved
    split_ifs with same
    · exact ⟨_, List.mem_cons_self, same, rfl⟩
    · obtain ⟨node, hnode, rest⟩ := ih (by simpa [Ne.symm same] using known)
      exact ⟨node, List.mem_cons_of_mem first hnode, rest⟩

theorem Changes.extends (changes : Changes operation lineage next) : Extends lineage next := by
  cases changes with
  | recoveryPoint _ fresh =>
    exact ⟨⟨lineage.nodes, List.prefix_append _ _, List.forall₂_same.mpr fun node _ => .refl node⟩,
      List.prefix_rfl⟩
  | detachedPoint _ fresh =>
    exact ⟨⟨lineage.nodes, List.prefix_append _ _, List.forall₂_same.mpr fun node _ => .refl node⟩,
      List.prefix_rfl⟩
  | activation fresh target safety =>
    exact ⟨(Extends.refl lineage).nodes, List.prefix_append _ _⟩
  | removal found available =>
    exact ⟨⟨_, List.prefix_rfl, setRemoved_kept found available⟩, List.prefix_rfl⟩

theorem Changes.revision (changes : Changes operation lineage next) :
    next.revision = lineage.revision + 1 := by
  cases changes <;> rfl

/-- The point that an operation makes the head. -/
def HistoryOperation.points : HistoryOperation → Option DeploymentId
  | recordRecoveryPoint record => some record.id
  | recordActivation transaction outcome _ => some (outcome.activated transaction)
  | _ => none

theorem Changes.head (changes : Changes operation lineage next) :
    next.currentHeadId = operation.points.or lineage.currentHeadId := by
  cases changes <;> rfl

theorem Changes.settled (changes : Changes operation lineage next) : operation.Settled next := by
  cases changes with
  | recoveryPoint present fresh =>
    exact ⟨present, by simp [SystemLineage.nodeIds, LineageNode.ofPoint]⟩
  | detachedPoint present fresh =>
    exact ⟨present, by simp [SystemLineage.nodeIds, LineageNode.ofPoint]⟩
  | activation fresh target safety =>
    exact ⟨_, List.mem_append_right _ (List.mem_singleton_self _), rfl, rfl⟩
  | removal found available =>
    refine setRemoved_settled (List.mem_map.mpr ⟨_, List.mem_of_find?_eq_some found, ?_⟩)
    simpa using List.find?_some found

/-- The point is a node that is neither the head nor the parent of a node. -/
structure Detached (lineage : SystemLineage) (id : DeploymentId) : Prop where
  known : id ∈ lineage.nodeIds
  notHead : lineage.currentHeadId ≠ some id
  notParent : ∀ node ∈ lineage.nodes, node.parentId ≠ some id

theorem Changes.detached (changes : Changes operation lineage next) (detached : Detached lineage id)
    (inactive : ∀ transaction outcome completedAt,
      operation = .recordActivation transaction outcome completedAt →
        outcome.activated transaction ≠ id) : Detached next id := by
  refine ⟨changes.extends.mem_nodeIds detached.known, ?_, ?_⟩
  · cases changes with
    | recoveryPoint present fresh =>
      rintro ⟨⟩
      exact fresh detached.known
    | detachedPoint present fresh => exact detached.notHead
    | activation fresh target safety =>
      intro head
      exact inactive _ _ _ rfl (Option.some.inj head)
    | removal found available => exact detached.notHead
  · cases changes with
    | recoveryPoint present fresh =>
      simpa [or_imp, forall_and, LineageNode.ofPoint] using
        ⟨detached.notParent, detached.notHead⟩
    | detachedPoint present fresh =>
      simpa [or_imp, forall_and, LineageNode.ofPoint] using detached.notParent
    | activation fresh target safety => exact detached.notParent
    | removal found available =>
      intro node hnode
      have hparent : node.parentId ∈ lineage.nodes.map LineageNode.parentId := by
        rw [← LineageMutation.map_setRemoved LineageNode.parentId lineage.nodes fun _ => rfl]
        exact List.mem_map_of_mem hnode
      obtain ⟨old, hold, same⟩ := List.mem_map.mp hparent
      exact same ▸ detached.notParent old hold

/-- A point that is recorded as detached is detached. -/
theorem detached_of_recorded {record : DeploymentRecord} (valid : lineage.Valid)
    (changes : Changes (.recordDetachedRecoveryPoint record) lineage next) :
    Detached next record.id := by
  cases changes with
  | detachedPoint present fresh =>
    refine ⟨by simp [SystemLineage.nodeIds, LineageNode.ofPoint], fun head => ?_, ?_⟩
    · exact fresh (valid.head _ head)
    · intro node hnode up
      rcases List.mem_append.mp hnode with hnode | hnode
      · exact fresh (valid.forest.closed node hnode _ up)
      · rw [List.mem_singleton.mp hnode] at up
        cases up

end Effects

section Runs

variable {operation : HistoryOperation} {operations : List HistoryOperation}
  {lineage next : SystemLineage} {id : DeploymentId}

/-- `mutate` with the closure of an operation loads the lineage, saves what `run` makes of it when
that is something else, and fails with it. -/
theorem update_eq_run {store : LineageStore} (load : store.load = .ok (some lineage)) :
    store.update (LineageMutation.onExisting · operation.change) = (do
      let next ← operation.run lineage
      let store ← store.persist (next ≠ lineage) next
      pure (next, store)) := by
  have closure : LineageMutation.onExisting (some lineage) (operation.change ·) =
      operation.change lineage >>= fun result => pure (some result.1, result.2) := rfl
  rw [LineageStore.update, load, HistoryOperation.run]
  change (LineageMutation.onExisting (some lineage) (operation.change ·) >>= _) = _
  rw [closure]
  cases change : operation.change lineage with
  | error e => rfl
  | ok result =>
    obtain ⟨middle, changed⟩ := result
    cases changed with
    | false =>
      obtain ⟨rfl, -⟩ := change_false change
      change (middle.validate >>= _) = ((middle.validate >>= _) >>= _)
      cases middle.validate with
      | error e => rfl
      | ok => simp [bind, Except.bind, pure, Except.pure]
    | true =>
      change (LineageStore.advanceRevision middle >>= _) =
        ((LineageStore.advanceRevision middle >>= _) >>= _)
      unfold LineageStore.advanceRevision
      split_ifs
      · have moved : { middle with revision := middle.revision + 1 } ≠ lineage := by
          intro same
          have revision := congrArg SystemLineage.revision same
          have := (change_true change).1
          simp only at revision
          omega
        change (SystemLineage.validate _ >>= _) = ((SystemLineage.validate _ >>= _) >>= _)
        cases SystemLineage.validate _ with
        | error e => rfl
        | ok => simp [bind, Except.bind, pure, Except.pure, moved]
      · rfl

/-- The lineage after a call; a call that fails saves nothing. -/
def HistoryOperation.after (lineage : SystemLineage) (operation : HistoryOperation) :
    SystemLineage :=
  match operation.run lineage with
  | .ok next => next
  | .error _ => lineage

def replay (lineage : SystemLineage) (operations : List HistoryOperation) : SystemLineage :=
  operations.foldl HistoryOperation.after lineage

/-- The calls that change something. -/
def effective (lineage : SystemLineage) : List HistoryOperation → List HistoryOperation
  | [] => []
  | operation :: operations =>
    let next := operation.after lineage
    if next = lineage then effective lineage operations else operation :: effective next operations

theorem after_cases (valid : lineage.Valid) : (operation.after lineage).Valid ∧
    (operation.after lineage = lineage ∨
      Changes operation lineage (operation.after lineage)) := by
  unfold HistoryOperation.after
  split
  · rename_i next run
    obtain ⟨accepted, effect⟩ := run_eq_ok run
    exact ⟨SystemLineage.validate_iff.mp accepted, effect.imp_left And.left⟩
  · exact ⟨valid, Or.inl rfl⟩

/-- A run is a chain of changes: what each of them preserves, the run preserves. -/
theorem replay_induction {motive : SystemLineage → List HistoryOperation → SystemLineage → Prop}
    (nil : ∀ lineage, motive lineage [] lineage)
    (cons : ∀ operation operations lineage next final, lineage.Valid → next.Valid →
      Changes operation lineage next → motive next operations final →
      motive lineage (operation :: operations) final)
    (valid : lineage.Valid) (operations : List HistoryOperation) :
    motive lineage (effective lineage operations) (replay lineage operations) := by
  induction operations generalizing lineage with
  | nil => exact nil lineage
  | cons operation operations ih =>
    obtain ⟨valid', effect⟩ := @after_cases operation lineage valid
    have rest := ih valid'
    unfold effective replay
    rw [List.foldl_cons]
    dsimp only
    split_ifs with same
    · rw [same] at rest ⊢
      exact rest
    · exact cons _ _ _ _ _ valid valid' (effect.resolve_left same) rest

theorem replay_valid (valid : lineage.Valid) (operations : List HistoryOperation) :
    (replay lineage operations).Valid := by
  induction operations generalizing lineage with
  | nil => exact valid
  | cons operation operations ih => exact ih (@after_cases operation lineage valid).1

theorem replay_extends (valid : lineage.Valid) (operations : List HistoryOperation) :
    Extends lineage (replay lineage operations) :=
  replay_induction (motive := fun lineage _ final => Extends lineage final) Extends.refl
    (fun _ _ _ _ _ _ _ changes rest => changes.extends.trans rest) valid operations

theorem replay_revision (valid : lineage.Valid) (operations : List HistoryOperation) :
    (replay lineage operations).revision =
      lineage.revision + (effective lineage operations).length := by
  refine replay_induction (motive := fun lineage changes final =>
    final.revision = lineage.revision + changes.length) (fun _ => rfl) ?_ valid operations
  intro operation operations lineage next final _ _ changes rest
  rw [rest, changes.revision, List.length_cons]
  omega

/-- The last point that a list of changes made the head. -/
def lastPoint (changes : List HistoryOperation) : Option DeploymentId :=
  (changes.filterMap HistoryOperation.points).getLast?

theorem replay_head (valid : lineage.Valid) (operations : List HistoryOperation) :
    (replay lineage operations).currentHeadId =
      (lastPoint (effective lineage operations)).or lineage.currentHeadId := by
  refine replay_induction (motive := fun lineage changes final =>
    final.currentHeadId = (lastPoint changes).or lineage.currentHeadId) (fun _ => rfl) ?_ valid
    operations
  intro operation operations lineage next final _ _ changes rest
  rw [rest, changes.head]
  unfold lastPoint
  cases point : operation.points with
  | none => rw [List.filterMap_cons_none point, Option.none_or]
  | some id =>
    rw [List.filterMap_cons_some point, List.getLast?_cons]
    cases (operations.filterMap HistoryOperation.points).getLast? <;> rfl

theorem replay_detached (valid : lineage.Valid) (detached : Detached lineage id)
    (operations : List HistoryOperation)
    (inactive : ∀ transaction outcome completedAt,
      .recordActivation transaction outcome completedAt ∈ effective lineage operations →
        outcome.activated transaction ≠ id) : Detached (replay lineage operations) id := by
  refine replay_induction (motive := fun lineage changes final => Detached lineage id →
    (∀ transaction outcome completedAt,
      .recordActivation transaction outcome completedAt ∈ changes →
        outcome.activated transaction ≠ id) → Detached final id) (fun _ detached _ => detached) ?_
    valid operations detached inactive
  intro operation operations lineage next final _ _ changes rest detached inactive
  refine rest (changes.detached detached fun _ _ _ same => ?_) fun _ _ _ hmem => ?_
  · exact inactive _ _ _ (List.mem_cons.mpr (Or.inl same.symm))
  · exact inactive _ _ _ (List.mem_cons_of_mem operation hmem)

/-- An operation that has succeeded succeeds again at any later time, and changes nothing. -/
theorem replay_repeats (valid : lineage.Valid) (run : operation.run lineage = .ok next)
    (operations : List HistoryOperation) :
    operation.run (replay next operations) = .ok (replay next operations) := by
  obtain ⟨accepted, effect⟩ := run_eq_ok run
  have valid' := SystemLineage.validate_iff.mp accepted
  have settled : operation.Settled next := by
    rcases effect with ⟨rfl, settled⟩ | changes
    · exact settled
    · exact changes.settled
  exact settled_run (replay_valid valid' operations)
    (settled.extends (replay_extends valid' operations))

end Runs

end RecoveryEngine
