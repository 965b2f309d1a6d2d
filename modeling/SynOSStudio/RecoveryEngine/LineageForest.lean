import Mathlib.Data.List.Perm.Subperm
import Mathlib.Logic.Relation
import SynOSStudio.RecoveryEngine.LineageLimits

/-!
# The forest of the lineage

The walk over the parents, with its set of completed nodes, refuses exactly the cycles. A lineage
is accepted when its nodes are a forest that its head and its activations refer to.
-/

namespace RecoveryEngine

open Relation

section Walks

variable {parents : DeploymentId → Option DeploymentId} {completed path walked ids keys :
  List DeploymentId} {cursor : Option DeploymentId} {id : DeploymentId} {fuel : ℕ}

/-- One step up. -/
def Up (parents : DeploymentId → Option DeploymentId) (id above : DeploymentId) : Prop :=
  parents id = some above

/-- The chain of parents comes to an end. -/
def Ends (parents : DeploymentId → Option DeploymentId) (id : DeploymentId) : Prop :=
  Acc (flip (Up parents)) id

theorem Ends.not_cycle (h : Ends parents id) : ¬ TransGen (Up parents) id id := by
  induction h with
  | intro id _ ih =>
    intro cycle
    obtain ⟨above, up, back⟩ := TransGen.head'_iff.mp cycle
    exact ih above up (TransGen.tail' back up)

theorem walkParents_ends (done : ∀ id ∈ completed, Ends parents id)
    (walk : walkParents parents completed fuel path cursor = .ok walked) :
    (∀ id, cursor = some id → Ends parents id) ∧
      ∀ id ∈ walked, id ∈ path ∨ Ends parents id := by
  induction fuel generalizing path cursor with
  | zero =>
    cases cursor with
    | none => cases walk; simp +contextual
    | some id => cases walk
  | succ fuel ih =>
    cases cursor with
    | none => cases walk; simp +contextual
    | some id =>
      unfold walkParents at walk
      split_ifs at walk with complete seen
      · cases walk
        have ends := done id (by simpa using complete)
        exact ⟨by rintro _ ⟨⟩; exact ends, fun id hid => Or.inl hid⟩
      · obtain ⟨above, rest⟩ := ih walk
        have ends : Ends parents id := Acc.intro _ above
        refine ⟨by rintro _ ⟨⟩; exact ends, fun other hother => ?_⟩
        rcases rest other hother with hpath | hends
        · rcases List.mem_cons.mp hpath with rfl | hpath
          · exact Or.inr ends
          · exact Or.inl hpath
        · exact Or.inr hends

theorem validateAcyclicFrom_ends (done : ∀ id ∈ completed, Ends parents id)
    (h : validateAcyclicFrom parents fuel completed ids = .ok ()) :
    ∀ id ∈ ids, Ends parents id := by
  induction ids generalizing completed with
  | nil => simp
  | cons id ids ih =>
    obtain ⟨walked, walk, rest⟩ := bind_eq_ok.mp h
    obtain ⟨ends, behind⟩ := walkParents_ends done walk
    intro other hother
    rcases List.mem_cons.mp hother with rfl | hother
    · exact ends other rfl
    · refine ih (fun id hid => ?_) rest other hother
      rcases List.mem_append.mp hid with hid | hid
      · exact (behind id hid).resolve_left List.not_mem_nil
      · exact done id hid

/-- Without a cycle the walk visits each node with a parent at most once. -/
theorem walkParents_ok (hkeys : ∀ id above, Up parents id above → id ∈ keys)
    (acyclic : ∀ id, ¬ TransGen (Up parents) id id) (nodup : path.Nodup)
    (below : ∀ x ∈ path, ∀ id, cursor = some id → TransGen (Up parents) x id)
    (enough : keys.length + 2 ≤ fuel + path.length) :
    ∃ walked, walkParents parents completed fuel path cursor = .ok walked := by
  induction fuel generalizing path cursor with
  | zero =>
    cases cursor with
    | none => exact ⟨path, rfl⟩
    | some id =>
      have subset : path ⊆ keys := by
        intro x hx
        obtain ⟨above, up, -⟩ := TransGen.head'_iff.mp (below x hx id rfl)
        exact hkeys x above up
      have short := (List.subperm_of_subset nodup subset).length_le
      omega
  | succ fuel ih =>
    cases cursor with
    | none => exact ⟨path, rfl⟩
    | some id =>
      unfold walkParents
      split_ifs with complete seen
      · exact ⟨path, rfl⟩
      · exact absurd (below id (by simpa using seen) id rfl) (acyclic id)
      · refine ih (List.nodup_cons.mpr ⟨by simpa using seen, nodup⟩) ?_
          (by rw [List.length_cons]; omega)
        intro x hx above up
        rcases List.mem_cons.mp hx with rfl | hx
        · exact TransGen.single up
        · exact (below x hx id rfl).tail up

theorem validateAcyclicFrom_ok (hkeys : ∀ id above, Up parents id above → id ∈ keys)
    (acyclic : ∀ id, ¬ TransGen (Up parents) id id) :
    validateAcyclicFrom parents (keys.length + 2) completed ids = .ok () := by
  induction ids generalizing completed with
  | nil => rfl
  | cons id ids ih =>
    obtain ⟨walked, walk⟩ := @walkParents_ok parents completed [] keys (some id) _ hkeys acyclic
      List.nodup_nil (fun _ hx => absurd hx List.not_mem_nil) le_rfl
    exact bind_eq_ok.mpr ⟨walked, walk, ih⟩

end Walks

section Forest

variable {nodes : List LineageNode} {node : LineageNode} {child parent : DeploymentId}

def Parent (nodes : List LineageNode) (child parent : DeploymentId) : Prop :=
  ∃ node ∈ nodes, node.recoveryPointId = child ∧ node.parentId = some parent

def NoCycle (nodes : List LineageNode) : Prop :=
  ∀ id, ¬ TransGen (Parent nodes) id id

theorem up_eq_parent (nodup : (nodes.map LineageNode.recoveryPointId).Nodup) :
    Up (fun id => (KeyedLists.entry LineageNode.recoveryPointId nodes id).bind
      LineageNode.parentId) = Parent nodes := by
  funext child parent
  simp [Up, Parent, Option.bind_eq_some_iff, KeyedLists.entry_iff_of_nodup nodup, and_assoc]

/-- Of the lists without a repeated identifier, those without a cycle are accepted. -/
theorem validateAcyclic_iff (nodup : (nodes.map LineageNode.recoveryPointId).Nodup) :
    validateAcyclic nodes = .ok () ↔ NoCycle nodes := by
  have up := up_eq_parent nodup
  have hkeys : ∀ id above, Parent nodes id above →
      id ∈ nodes.map LineageNode.recoveryPointId := by
    rintro id above ⟨node, hnode, rfl, -⟩
    exact List.mem_map_of_mem hnode
  unfold validateAcyclic NoCycle
  rw [← up]
  constructor
  · intro h id cycle
    obtain ⟨above, hup, -⟩ := TransGen.head'_iff.mp cycle
    have ends := validateAcyclicFrom_ends (fun _ hid => absurd hid List.not_mem_nil) h
    exact (ends id (hkeys id above (up ▸ hup))).not_cycle cycle
  · intro acyclic
    have run := @validateAcyclicFrom_ok _ [] (nodes.map LineageNode.recoveryPointId)
      (nodes.map LineageNode.recoveryPointId) (by rwa [up]) acyclic
    simpa using run

/-- A new leaf closes no cycle. -/
theorem NoCycle.append_leaf (acyclic : NoCycle nodes)
    (fresh : ∀ other ∈ nodes ++ [node], other.parentId ≠ some node.recoveryPointId) :
    NoCycle (nodes ++ [node]) := by
  have target : ∀ {a b}, Parent (nodes ++ [node]) a b → b ≠ node.recoveryPointId := by
    rintro a b ⟨other, hother, -, up⟩ rfl
    exact fresh other hother up
  have old : ∀ {a b}, a ≠ node.recoveryPointId → Parent (nodes ++ [node]) a b →
      Parent nodes a b := by
    rintro a b ha ⟨other, hother, rfl, up⟩
    rcases List.mem_append.mp hother with hother | hother
    · exact ⟨other, hother, rfl, up⟩
    · exact absurd (congrArg _ (List.mem_singleton.mp hother)) ha
  have chain : ∀ {a b}, a ≠ node.recoveryPointId → TransGen (Parent (nodes ++ [node])) a b →
      TransGen (Parent nodes) a b ∧ b ≠ node.recoveryPointId := by
    intro a b ha h
    induction h with
    | single up => exact ⟨.single (old ha up), target up⟩
    | tail _ up ih => exact ⟨ih.1.tail (old ih.2 up), target up⟩
  intro id cycle
  obtain ⟨below, -, up⟩ := TransGen.tail'_iff.mp cycle
  exact acyclic id (chain (target up) cycle).1

end Forest

section Validity

theorem checkNodes_iff {seen : List DeploymentId} {nodes : List LineageNode} :
    checkNodes seen nodes = .ok () ↔ (nodes.map LineageNode.recoveryPointId).Nodup ∧
      (∀ node ∈ nodes, node.recoveryPointId ∉ seen) ∧ ∀ node ∈ nodes, node.check = .ok () := by
  refine ⟨fun h => ?_, fun h => checkNodes_of_nodup h.1 h.2.1 h.2.2⟩
  induction nodes generalizing seen with
  | nil => simp
  | cons node nodes ih =>
    simp only [checkNodes, bind_eq_ok_unit, ensure_eq_ok] at h
    obtain ⟨fresh, check, rest⟩ := h
    obtain ⟨nodup, unseen, checks⟩ := ih rest
    have apart : ∀ other ∈ nodes, other.recoveryPointId ≠ node.recoveryPointId ∧
        other.recoveryPointId ∉ seen := by
      intro other hother
      simpa using unseen other hother
    simp only [List.map_cons, List.nodup_cons, List.forall_mem_cons]
    refine ⟨⟨?_, nodup⟩, ⟨by simpa using fresh, fun other hother => (apart other hother).2⟩, check,
      checks⟩
    intro hmem
    obtain ⟨other, hother, same⟩ := List.mem_map.mp hmem
    exact (apart other hother).1 same

/-- The event of an activation refers to the nodes and spans a time. -/
structure ActivationEvent.Consistent (ids : List DeploymentId) (event : ActivationEvent) :
    Prop where
  canonical : canonicalUuid event.transactionId
  ordered : event.scheduledAt ≤ event.completedAt
  target : event.targetRecoveryPointId ∈ ids
  safety : event.safetyRecoveryPointId ∈ ids
  previous : ∀ head, event.previousHeadId = some head → head ∈ ids

theorem isSome_of_canonicalUuid {value : String} (h : canonicalUuid value) :
    (Uuid.parseStr value).isSome := by
  unfold canonicalUuid at h
  cases parsed : Uuid.parseStr value with
  | none => simp [parsed] at h
  | some _ => rfl

theorem checkActivations_iff {ids : List DeploymentId} {seen : List String}
    {events : List ActivationEvent} :
    checkActivations ids seen events = .ok () ↔
      (events.map ActivationEvent.transactionId).Nodup ∧
        (∀ event ∈ events, event.transactionId ∉ seen) ∧
        ∀ event ∈ events, event.Consistent ids := by
  induction events generalizing seen with
  | nil => simp [checkActivations]
  | cons event events ih =>
    have consistent : event.Consistent ids ↔ canonicalUuid event.transactionId ∧
        (!decide (event.completedAt < event.scheduledAt) &&
          ids.contains event.targetRecoveryPointId && ids.contains event.safetyRecoveryPointId &&
          event.previousHeadId.all ids.contains) = true := by
      simp only [Bool.and_eq_true, Bool.not_eq_true', decide_eq_false_iff_not, not_lt,
        List.contains_iff_mem, Option.all_eq_true]
      exact ⟨fun h => ⟨h.1, ⟨⟨h.2, h.3⟩, h.4⟩, h.5⟩, fun h =>
        ⟨h.1, h.2.1.1.1, h.2.1.1.2, h.2.1.2, h.2.2⟩⟩
    simp only [checkActivations, bind_eq_ok_unit, ensure_eq_ok, ih, List.map_cons,
      List.nodup_cons, List.forall_mem_cons, consistent]
    simp only [List.mem_cons, not_or, Bool.and_eq_true, Bool.not_eq_true', List.contains_eq_mem,
      decide_eq_false_iff_not, List.mem_map, not_exists, not_and, forall_and]
    constructor
    · rintro ⟨-, ⟨canonical, fresh⟩, sound, nodup, ⟨apart, unseen⟩, rest⟩
      exact ⟨⟨apart, nodup⟩, ⟨fresh, unseen⟩, ⟨canonical, sound⟩, rest⟩
    · rintro ⟨⟨apart, nodup⟩, ⟨fresh, unseen⟩, ⟨canonical, sound⟩, rest⟩
      exact ⟨isSome_of_canonicalUuid canonical, ⟨canonical, fresh⟩, sound, nodup, ⟨apart, unseen⟩,
        rest⟩

/-- The parents are a forest over the nodes. -/
structure Forest (nodes : List LineageNode) : Prop where
  distinct : (nodes.map LineageNode.recoveryPointId).Nodup
  closed : ∀ node ∈ nodes, ∀ parent, node.parentId = some parent →
    parent ∈ nodes.map LineageNode.recoveryPointId
  noCycle : NoCycle nodes

/-- What `validate` accepts. -/
structure SystemLineage.Valid (lineage : SystemLineage) : Prop where
  schema : lineage.schemaVersion = lineageSchemaVersion
  fewNodes : lineage.nodes.length ≤ maxLineageNodes
  fewActivations : lineage.activations.length ≤ maxActivationEvents
  forest : Forest lineage.nodes
  checked : ∀ node ∈ lineage.nodes, node.check = .ok ()
  head : ∀ id, lineage.currentHeadId = some id → id ∈ lineage.nodeIds
  transactions : (lineage.activations.map ActivationEvent.transactionId).Nodup
  consistent : ∀ event ∈ lineage.activations, event.Consistent lineage.nodeIds

theorem SystemLineage.validate_iff {lineage : SystemLineage} :
    lineage.validate = .ok () ↔ lineage.Valid := by
  simp only [validate, bind_eq_ok_unit, ensure_eq_ok, checkNodes_iff, checkActivations_iff,
    beq_iff_eq, Bool.and_eq_true, decide_eq_true_eq, Option.all_eq_true, List.all_eq_true,
    List.contains_iff_mem, List.not_mem_nil, not_false_eq_true, implies_true, true_and]
  constructor
  · rintro ⟨schema, ⟨nodes, activations⟩, ⟨distinct, checked⟩, head, closed, acyclic,
      transactions, consistent⟩
    exact ⟨schema, nodes, activations, ⟨distinct, closed, (validateAcyclic_iff distinct).mp acyclic⟩,
      checked, head, transactions, consistent⟩
  · intro h
    exact ⟨h.schema, ⟨h.fewNodes, h.fewActivations⟩, ⟨h.forest.distinct, h.checked⟩, h.head,
      h.forest.closed, (validateAcyclic_iff h.forest.distinct).mpr h.forest.noCycle,
      h.transactions, h.consistent⟩

end Validity

end RecoveryEngine
