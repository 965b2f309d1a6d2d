import SynOSStudio.RecoveryEngine.Faultless
import SynOSStudio.RecoveryEngine.SnapshotScope
import SynOSStudio.RecoveryEngine.RollbackSafety.Boots

/-!
# When a snapshot can be deleted

A deletion removes the snapshot, then its directory, then marks its lineage node, and
removes the metadata last. The step in the middle needs a lineage node for the
snapshot, which only a completed creation writes. The theorem says exactly in which
of the reachable stores a deletion succeeds.
-/

namespace RecoveryEngine

open InterruptiblePrograms

namespace SnapshotDeletion

section Calls

/-- A call of the snapshot engine; a creation comes with the identifier that it draws. -/
inductive Call where
  | create (layout : LayoutSupport) (id : DeploymentId) (request : Operations.SnapshotRequest)
  | delete (layout : LayoutSupport) (id : DeploymentId)
  | deleteAutomatic (layout : LayoutSupport) (id : DeploymentId) (minimum : ℕ)

def Call.program : Call → Prog HostOp HostOp.Ans Unit
  | .create layout id request =>
    (Operations.createSnapshot layout id request).run >>= fun _ => pure ()
  | .delete layout id => (Operations.delete layout id).run >>= fun _ => pure ()
  | .deleteAutomatic layout id minimum =>
    (Operations.deleteAutomatic layout id minimum).run >>= fun _ => pure ()

/-- Run a call until its script ends. The locks of a process end with it. -/
def Call.runIn (call : Call) (script : List Choice) (w : World) : World :=
  { (call.program.run perform script w).2 with locks := ⟨false, false⟩ }

def runCalls (calls : List (Call × List Choice)) (w : World) : World :=
  calls.foldl (fun w call => call.1.runIn call.2 w) w

/-- What the checks of the programs keep true of a store. -/
structure StoreValid (w : World) : Prop where
  records : ∀ record ∈ w.records, record.validate = .ok ()
  ids : (w.records.map DeploymentRecord.id).Nodup
  pending : ∀ t ∈ w.pending, t.Valid
  package : ∀ t ∈ w.package, t.validate = .ok ()
  lineage : ∀ lineage ∈ w.lineage.file, lineage.validate = .ok ()

/-- A store of valid records, maybe empty, without a lineage file and with no process in it. -/
structure Initial (w : World) : Prop where
  valid : StoreValid w
  noLineage : w.lineage.file = none
  locks : w.locks = ⟨false, false⟩

end Calls

section Validity

/-- The calls write valid records and leave the pending transactions alone. -/
def WritesValid : HostOp → Prop
  | .record (.write record) => record.validate = .ok ()
  | .rollback .load | .package .load => True
  | .rollback _ | .package _ => False
  | _ => True

/-- Writing a record keeps one record for each identifier. -/
theorem nodup_replaced {records : List DeploymentRecord} (record : DeploymentRecord)
    (h : (records.map DeploymentRecord.id).Nodup) :
    ((record :: records.filter fun r => r.id != record.id).map DeploymentRecord.id).Nodup := by
  rw [List.map_cons, List.nodup_cons]
  constructor
  · intro hmem
    obtain ⟨r, hr, hid⟩ := List.mem_map.mp hmem
    simp only [List.mem_filter, bne_iff_ne] at hr
    exact hr.2 hid
  · exact h.sublist (List.filter_sublist.map DeploymentRecord.id)

theorem StoreValid.perform {op : HostOp} {w : World} (h : StoreValid w) (hop : WritesValid op)
    (k : Choice) : StoreValid (perform op k w).2 := by
  cases op with
  | now => exact ⟨h.records, h.ids, h.pending, h.package, h.lineage⟩
  | disk op =>
    obtain ⟨_, he⟩ := perform_disk k w op
    rw [he]
    exact ⟨h.records, h.ids, h.pending, h.package, h.lineage⟩
  | cleanup op =>
    obtain ⟨_, he⟩ := perform_cleanup k w op
    rw [he]
    exact ⟨h.records, h.ids, h.pending, h.package, h.lineage⟩
  | boot op =>
    obtain ⟨_, he⟩ := perform_boot k w op
    rw [he]
    exact ⟨h.records, h.ids, h.pending, h.package, h.lineage⟩
  | lock op =>
    obtain ⟨_, he⟩ := perform_lock k w op
    rw [he]
    exact ⟨h.records, h.ids, h.pending, h.package, h.lineage⟩
  | rollback op =>
    cases op with
    | load =>
      rcases orFault_cases k w (w.rollbackEffect .load) with ⟨e, he⟩ | he <;>
      · rw [show RecoveryEngine.perform (.rollback .load) k w = _ from he]
        exact h
    | _ => cases hop
  | package op =>
    cases op with
    | load =>
      rcases orFault_cases k w (w.packageEffect .load) with ⟨e, he⟩ | he <;>
      · rw [show RecoveryEngine.perform (.package .load) k w = _ from he]
        exact h
    | _ => cases hop
  | record op =>
    rcases orFault_cases k w (w.recordEffect op) with ⟨e, he⟩ | he
    · rw [show RecoveryEngine.perform (.record op) k w = _ from he]
      exact h
    · rw [show RecoveryEngine.perform (.record op) k w = _ from he]
      cases op with
      | load id => exact h
      | discover => exact h
      | write record =>
        refine ⟨fun r hr => ?_, ?_, h.pending, h.package, h.lineage⟩
        · rcases List.mem_cons.mp hr with rfl | hr
          · exact hop
          · exact h.records r (List.mem_of_mem_filter hr)
        · exact nodup_replaced record h.ids
      | remove id =>
        refine ⟨fun r hr => h.records r (List.mem_of_mem_filter hr), ?_, h.pending, h.package,
          h.lineage⟩
        exact h.ids.sublist (List.filter_sublist.map DeploymentRecord.id)
  | lineage mutation =>
    rcases orFault_cases k w (.ok (w.lineageEffect mutation).1, (w.lineageEffect mutation).2)
      with ⟨e, he⟩ | he
    · rw [show RecoveryEngine.perform (.lineage mutation) k w = _ from he]
      exact h
    · rw [show RecoveryEngine.perform (.lineage mutation) k w = _ from he]
      simp only [World.lineageEffect]
      cases hmutate : w.lineage.mutate mutation with
      | error e => exact h
      | ok result =>
        refine ⟨h.records, h.ids, h.pending, h.package, fun l hl => ?_⟩
        obtain ⟨-, hvalid, -, changed, -, -, -, -, -, hstore⟩ := LineageStore.mutate_eq_ok hmutate
        simp only [hstore] at hl
        split_ifs at hl
        · cases hl
          exact hvalid
        · exact h.lineage l hl

variable {α : Type}

open Operations

theorem within_of_confined {id : DeploymentId} {p : Prog HostOp HostOp.Ans α}
    (h : Within (Confined id) p) : Within WritesValid p := by
  refine h.mono fun op hop => ?_
  cases op with
  | record op =>
    cases op with
    | write record => exact hop.2
    | _ => trivial
  | rollback op =>
    cases op with
    | load => trivial
    | _ => exact hop
  | package op =>
    cases op with
    | load => trivial
    | _ => exact hop
  | _ => trivial

theorem within_withLock {ε : Type} {acquire : LockOp} {view : Except String acquire.Result →
    Except ε Unit} {release : LockOp} {body : Action ε α}
    (hbody : Within WritesValid body.run) :
    Within WritesValid (withLock (Attempt.call (.lock acquire) view) release body).run :=
  within_attempt_bind (within_call _ trivial) fun _ =>
    within_attempt_bind (within_outcome hbody) fun _ =>
      within_attempt_bind (within_call _ trivial) fun _ => within_ofExcept _

theorem within_createSnapshot (layout : LayoutSupport) (id : DeploymentId)
    (request : SnapshotRequest) : Within WritesValid (createSnapshot layout id request).run :=
  within_attempt_bind (within_ofExcept _) fun _ =>
    within_attempt_bind (within_call _ trivial) fun _ =>
    within_attempt_bind (within_call _ trivial) fun _ =>
    within_withLock (within_attempt_bind (within_call _ trivial) fun _ =>
      within_of_confined (confined_createSnapshotLocked request _))

theorem within_deleteWithRestorableFloor (layout : LayoutSupport) (id : DeploymentId)
    (minimum : Option ℕ) :
    Within WritesValid (deleteWithRestorableFloor layout id minimum).run :=
  within_attempt_bind (within_ofExcept _) fun _ =>
    within_attempt_bind (within_call _ trivial) fun _ =>
    within_withLock (within_withLock (within_of_confined (confined_deleteLocked minimum)))

theorem Call.within (call : Call) : Within WritesValid call.program := by
  cases call with
  | create layout id request =>
    exact within_bind (within_createSnapshot layout id request) fun _ => trivial
  | delete layout id =>
    exact within_bind (within_deleteWithRestorableFloor layout id none) fun _ => trivial
  | deleteAutomatic layout id minimum =>
    exact within_bind (within_deleteWithRestorableFloor layout id (some minimum)) fun _ => trivial

theorem Call.runIn_valid (call : Call) (script : List Choice) {w : World} (h : StoreValid w) :
    StoreValid (call.runIn script w) := by
  have hkeeps : Keeps perform (fun _ => True) StoreValid call.program (fun _ w => StoreValid w) w :=
    Keeps.of_within (fun _ k _ hop _ hw => hw.perform hop k) (fun _ hw => hw) call.within h
  have hrun := hkeeps.run_inv (fun _ _ hw => hw) script fun _ _ => trivial
  exact ⟨hrun.records, hrun.ids, hrun.pending, hrun.package, hrun.lineage⟩

theorem runCalls_valid (calls : List (Call × List Choice)) {w : World} (h : StoreValid w) :
    StoreValid (runCalls calls w) := by
  induction calls generalizing w with
  | nil => exact h
  | cons call calls ih => exact ih (call.1.runIn_valid call.2 h)

theorem runCalls_locks (calls : List (Call × List Choice)) {w : World}
    (h : w.locks = ⟨false, false⟩) : (runCalls calls w).locks = ⟨false, false⟩ := by
  induction calls generalizing w with
  | nil => exact h
  | cons call calls ih => exact ih rfl

end Validity

section Completion

variable {α : Type} {w : World} {id : DeploymentId}

/-- Nothing of the snapshot is left. -/
structure Gone (id : DeploymentId) (w : World) : Prop where
  metadata : w.record? id = none
  directory : w.disk.directories id = false
  snapshot : w.disk.snapshots id = none

/-- The lineage file can be read, has a node for the snapshot, and has room to mark it. -/
def Completable (id : DeploymentId) (w : World) : Prop :=
  ∃ lineage, w.lineage.file = some lineage ∧
    w.lineage.encodedLength lineage + 1 ≤ maxLineageBytes ∧
    ∃ node, lineage.nodes.find? (fun node => node.recoveryPointId == id) = some node ∧
      (node.snapshotAvailable = false ∨ lineage.revision < maxRevision ∧
        w.lineage.encodedLength (LineageStore.marked lineage id w.clock.now) ≤ maxLineageBytes)

theorem lineage_completes (mutation : LineageMutation) :
    CompletesIff (∃ r, w.lineage.mutate mutation = .ok r)
      (fun lineage w' => ∃ store, w.lineage.mutate mutation = .ok (lineage, store) ∧
        w' = { w with lineage := store })
      (Operations.mutateLineage mutation) w := by
  refine (keeps_attempt_call _ _ _ _).mpr ⟨trivial, fun k hk => ?_⟩
  have hperform : perform (.lineage mutation) k w =
      (.ok (w.lineageEffect mutation).1, (w.lineageEffect mutation).2) :=
    orFault_of_faultless hk _
  rw [hperform]
  unfold World.lineageEffect
  cases hmutate : w.lineage.mutate mutation with
  | error e => exact fun ⟨r, hr⟩ => by cases hr
  | ok r => exact ⟨⟨r, rfl⟩, r.2, rfl, rfl⟩

theorem removeDeployment_completes (id : DeploymentId) :
    CompletesIff True (fun _ w' => ∃ disk : Disk, w' = { w with disk := disk } ∧
      disk.directories id = false ∧ disk.snapshots id = none)
      (Operations.removeDeployment id) w := by
  have hroot : CompletesIff True (fun present w' => present = (w.disk.snapshots id).isSome ∧ w = w')
      (Operations.deploymentRoot id) w := disk_completes fun _ _ => ⟨_, rfl, rfl, rfl⟩
  have hdirectory : ∀ disk : Disk, disk.snapshots id = none →
      CompletesIff True (fun _ w' => ∃ disk : Disk, w' = { w with disk := disk } ∧
        disk.directories id = false ∧ disk.snapshots id = none)
        (Operations.removeDirectory id) { w with disk := disk } := by
    intro disk hnone
    refine disk_completes fun _ _ => ⟨(), ?_, disk.setDirectory id false, ?_, ?_, hnone⟩
    · simp [Disk.effect, hnone]
    · simp [Disk.effect, hnone]
    · simp
  refine hroot.then ?_
  rintro present w' ⟨rfl, rfl⟩
  cases hsnapshot : w.disk.snapshots id with
  | none => exact hdirectory w.disk hsnapshot
  | some v =>
    have hdelete : CompletesIff True (fun _ w' => w' = { w with disk := w.disk.setSnapshot id none })
        (Operations.deleteSnapshot id) w := by
      refine disk_completes fun _ _ => ⟨(), ?_, ?_⟩ <;> simp [Disk.effect, hsnapshot]
    refine hdelete.then ?_
    rintro _ w' rfl
    exact hdirectory _ (by simp)

theorem removeRecord_completes (id : DeploymentId) :
    CompletesIff True (fun _ w' => w' = { w with
      records := w.records.filter fun r => r.id != id }) (Operations.removeRecord id) w :=
  record_completes ⟨(), rfl, rfl⟩

theorem discover_completes :
    CompletesIff True (fun report w' => report = w.discover ∧ w = w')
      (DeploymentStore.discover : Action OperationError DiscoveryReport) w := by
  refine succeedsIff_call fun k hk => ⟨w.discover, ?_, rfl, ?_⟩ <;>
    rw [show perform (.record .discover) k w = (.ok w.discover, w) from orFault_of_faultless hk _]

/-- Under a lock a computation succeeds exactly when it does without it. -/
theorem withLock_completes {ε : Type} {acquire : Action ε Unit} {release : LockOp}
    {body : Action ε α} {condition : Prop} {held good : World → Prop}
    {good' : α → World → Prop} (hacquire : CompletesIff True (fun _ w' => held w') acquire w)
    (hbody : ∀ w', held w' → CompletesIff condition (fun _ w' => good w') body w')
    (hrelease : ∀ a w', good w' → good' a (w'.lockEffect release).2) :
    CompletesIff condition good' (Operations.withLock acquire release body) w := by
  refine hacquire.then fun _ w' hheld => ?_
  refine (keeps_attempt_bind _ _ _ _).mpr ((keeps_outcome _ _ _).mpr ?_)
  refine Keeps.mono (hbody w' hheld) fun r w'' hr => ?_
  refine (keeps_attempt_bind _ _ _ _).mpr ((keeps_attempt_call _ _ _ _).mpr ?_)
  refine ⟨trivial, fun k hk => ?_⟩
  rw [perform_lock_of_faultless hk]
  cases r with
  | error e => exact hr
  | ok a => exact ⟨hr.1, hrelease a w'' hr.2⟩

/-- A node that `migrate` writes for a record that is being deleted fails its check. -/
theorem checkNodes_removed {seen : List DeploymentId} {nodes : List LineageNode}
    {node : LineageNode} (hmem : node ∈ nodes) (hremoved : node.snapshotAvailable = false)
    (hwhen : node.removedAt = none) : checkNodes seen nodes ≠ .ok () := by
  induction nodes generalizing seen with
  | nil => cases hmem
  | cons head nodes ih =>
    intro h
    simp only [checkNodes, bind_eq_ok_unit] at h
    obtain ⟨-, hcheck, hrest⟩ := h
    rcases List.mem_cons.mp hmem with rfl | hmem
    · simp [LineageNode.check, bind_eq_ok_unit, hremoved, hwhen] at hcheck
    · exact ih hmem hrest

/-- Without a lineage file the history that a deletion starts has no valid node for the
snapshot that it deletes. -/
theorem migrate_lacks {records : List DeploymentRecord} (hids : ∀ r ∈ records, r.id = id →
    r.state = .deleting) (hvalid : checkNodes [] (SystemLineage.migrate records).nodes = .ok ()) :
    (SystemLineage.migrate records).nodes.find? (fun node => node.recoveryPointId == id) = none := by
  rw [List.find?_eq_none]
  intro node hnode hid
  obtain ⟨r, hr, rfl⟩ := List.mem_map.mp hnode
  have hdeleting : r.state = .deleting :=
    hids r (List.mem_of_mem_filter hr) (by simpa [LineageNode.ofRecord] using hid)
  exact checkNodes_removed hnode (by simp [LineageNode.ofRecord, hdeleting]) rfl hvalid

/-- The two lineage steps of a deletion succeed together exactly when the snapshot is
completable before them. -/
theorem lineage_steps_iff {v : World} (hvalid : ∀ lineage ∈ v.lineage.file, lineage.validate = .ok ())
    {records : List DeploymentRecord} (hids : ∀ r ∈ records, r.id = id → r.state = .deleting) :
    Completable id v ↔ ∃ r, v.lineage.mutate (.ensureInitialized records) = .ok r ∧
      ∃ r', r.2.mutate (.markSnapshotRemoved id v.clock.now) = .ok r' := by
  cases hfile : v.lineage.file with
  | some lineage =>
    have hlineage := hvalid lineage hfile
    have hmark : (∃ r, v.lineage.mutate (.markSnapshotRemoved id v.clock.now) = .ok r) ↔ _ :=
      LineageStore.mutate_markSnapshotRemoved_iff hfile hlineage
    constructor
    · rintro ⟨l, hl, hfits, hnode⟩
      rw [hfile] at hl
      cases hl
      refine ⟨(lineage, v.lineage), ?_, hmark.mpr ⟨hfits, hnode⟩⟩
      exact LineageStore.mutate_ensureInitialized hfile hlineage hfits records
    · rintro ⟨r, hinit, hmarked⟩
      obtain ⟨file, hload, -⟩ := bind_eq_ok.mp hinit
      have hfits := ((LineageStore.load_eq_ok.mp hload).2 lineage hfile).1
      rw [LineageStore.mutate_ensureInitialized hfile hlineage hfits] at hinit
      cases hinit
      exact ⟨lineage, hfile, hmark.mp hmarked⟩
  | none =>
    constructor
    · rintro ⟨l, hl, -⟩
      rw [hfile] at hl
      cases hl
    · rintro ⟨⟨lineage, store⟩, hinit, hmarked⟩
      obtain ⟨-, hlineage, next, changed, happly, hnodes, -, -, -, hstore⟩ :=
        LineageStore.mutate_eq_ok hinit
      rw [hfile] at happly
      cases happly
      have hstored : store.file = some lineage := by simp [hstore, hfile]
      have hcheck : checkNodes [] lineage.nodes = .ok () := by
        simp only [SystemLineage.validate, bind_eq_ok_unit] at hlineage
        exact hlineage.2.2.1
      obtain ⟨-, node, hfound, -⟩ :=
        (LineageStore.mutate_markSnapshotRemoved_iff hstored hlineage).mp hmarked
      have hnodes' : lineage.nodes = (SystemLineage.migrate records).nodes := hnodes
      rw [hnodes', migrate_lacks hids (hnodes' ▸ hcheck)] at hfound
      cases hfound

/-- With distinct identifiers the record found for one is the only one. -/
theorem eq_of_record? (hids : (w.records.map DeploymentRecord.id).Nodup)
    {record : DeploymentRecord} (hrecord : w.record? id = some record) {r : DeploymentRecord}
    (hr : r ∈ w.records) (hid : r.id = id) : r = record := by
  have hmem := List.mem_of_find?_eq_some hrecord
  have hrecordId : record.id = id := by simpa using List.find?_some hrecord
  exact List.inj_on_of_nodup_map hids hr hmem (hid.trans hrecordId.symm)

/-- The part that a later call can resume. -/
theorem finishDeleting_completes (hvalid : StoreValid w) {record : DeploymentRecord}
    (hrecord : w.record? id = some record) (hstate : record.state = .deleting) :
    CompletesIff (Completable id w) (fun _ w' => Gone id w') (Operations.finishDeleting id) w := by
  refine (removeDeployment_completes id).then ?_
  rintro _ w₁ ⟨disk, rfl, hdirectory, hsnapshot⟩
  refine discover_completes.then ?_
  rintro report w₁ ⟨rfl, rfl⟩
  have hids : ∀ r ∈ (World.discover { w with disk := disk }).deployments, r.id = id →
      r.state = .deleting := by
    intro r hr hid
    have hmem : r ∈ w.records :=
      List.mem_of_mem_filter ((List.perm_insertionSort _ _).mem_iff.mp hr)
    rw [eq_of_record? hvalid.ids hrecord hmem hid]
    exact hstate
  have hsteps := lineage_steps_iff hvalid.lineage hids
  have hboth : ((∃ r, w.lineage.mutate (.ensureInitialized
      (World.discover { w with disk := disk }).deployments) = .ok r) ∧ Completable id w) ↔
      Completable id w := by
    constructor
    · exact fun h => h.2
    · intro h
      obtain ⟨r, hinit, -⟩ := hsteps.mp h
      exact ⟨⟨r, hinit⟩, h⟩
  refine SucceedsIff.congr (SucceedsIff.bind (lineage_completes _) ?_) hboth
  rintro lineage w₁ ⟨store, hinit, rfl⟩
  refine utcNow_completes.then ?_
  rintro now w₂ ⟨rfl, rfl⟩
  have hmarks : (∃ r', store.mutate (.markSnapshotRemoved id w.clock.now) = .ok r') ∧ True ↔
      Completable id w := by
    rw [and_true, hsteps]
    constructor
    · exact fun h => ⟨(lineage, store), hinit, h⟩
    · rintro ⟨r, hr, hmark⟩
      have hsame : r = (lineage, store) := by
        rw [hinit] at hr
        cases hr
        rfl
      rwa [hsame] at hmark
  refine SucceedsIff.congr (SucceedsIff.bind (lineage_completes _) ?_) hmarks
  rintro lineage' w₃ ⟨store', -, rfl⟩
  refine (removeRecord_completes id).then ?_
  rintro _ w₄ rfl
  refine disk_completes fun _ _ => ⟨(), rfl, ?_, hdirectory, hsnapshot⟩
  simp [World.record?]

/-- Marking a record for deletion keeps it valid. -/
theorem validate_deleting {record : DeploymentRecord} (h : record.validate = .ok ()) :
    ({ record with state := .deleting } : DeploymentRecord).validate = .ok () := by
  simp only [DeploymentRecord.validate, bind_eq_ok_unit, ensure_eq_ok] at h ⊢
  obtain ⟨h₁, h₂, h₃, h₄, h₅, h₆, h₇, h₈, h₉, h₁₀, h₁₁, h₁₂, -⟩ := h
  exact ⟨h₁, h₂, h₃, h₄, h₅, h₆, h₇, h₈, h₉, h₁₀, h₁₁, h₁₂, rfl⟩

/-- Every operation that a deletion of an ordinary record makes before its lineage steps
succeeds. -/
theorem beginDeleting_completes (hvalid : StoreValid w) {record : DeploymentRecord}
    (hrecord : w.record? id = some record) (hunpinned : record.pinned = false)
    (hstate : record.state ≠ .deleting) :
    CompletesIff True (fun _ w' => w' = { w with
      records := { record with state := .deleting } ::
        w.records.filter fun r => r.id != record.id }) (Operations.beginDeleting record none) w := by
  have hrecordValid := hvalid.records record (List.mem_of_find?_eq_some hrecord)
  have hdelete : record.canDelete = true := by
    unfold DeploymentRecord.canDelete
    cases hs : record.state <;> simp_all
  have htransition : record.state.canTransitionTo .deleting = true := by
    cases hs : record.state <;> simp_all [DeploymentState.canTransitionTo]
  refine succeedsIff_passed ((ensure_eq_ok _ _).mpr hdelete) ?_
  refine succeedsIff_passed ((ensure_eq_ok _ _).mpr htransition) ?_
  refine succeedsIff_passed (by rw [validate_deleting hrecordValid]; rfl) ?_
  exact record_completes ⟨(), rfl, rfl⟩

/-- No pending transaction refers to the snapshot. -/
structure Unreferenced (id : DeploymentId) (w : World) : Prop where
  rollback : ∀ t ∈ w.pending, Operations.referencedBy id t = false
  package : ∀ t ∈ w.package, Operations.packageReferencedBy id t = false

theorem ensureNotTransactionReferenced_completes (hvalid : StoreValid w)
    (hreference : Unreferenced id w) :
    CompletesIff True (fun _ w' => w = w') (Operations.ensureNotTransactionReferenced id) w := by
  refine (loadPending_completes hvalid.pending).mapError.then ?_
  rintro found w' ⟨rfl, rfl⟩
  have hrollback : (!w.pending.any (Operations.referencedBy id)) = true := by
    cases hp : w.pending with
    | none => rfl
    | some t => simp [hreference.rollback t hp]
  refine succeedsIff_passed ((ensure_eq_ok _ _).mpr hrollback) ?_
  have hload : CompletesIff True (fun found w' => found = w.package ∧ w = w')
      (Attempt.call (.package .load) fun r => r : Action String (Option PackageTransaction)) w := by
    refine succeedsIff_call fun k hk => ⟨w.package, ?_⟩
    have hperform : perform (.package .load) k w = (.ok w.package, w) := orFault_of_faultless hk _
    rw [hperform]
    exact ⟨rfl, rfl, rfl⟩
  have hpackage : CompletesIff True (fun found w' => found = w.package ∧ w = w')
      PackageTransactionStore.loadPending w := by
    refine hload.then ?_
    rintro found w' ⟨rfl, rfl⟩
    cases hp : w.package with
    | none => exact succeedsIff_pure ⟨rfl, rfl⟩
    | some t => exact succeedsIff_passed (hvalid.package t hp) (succeedsIff_pure ⟨rfl, rfl⟩)
  refine hpackage.mapError.then ?_
  rintro found w' ⟨rfl, rfl⟩
  have hnone : (!w.package.any (Operations.packageReferencedBy id)) = true := by
    cases hp : w.package with
    | none => rfl
    | some t => simp [hreference.package t hp]
  exact succeedsIff_ofExcept (fun _ => ⟨(), (ensure_eq_ok _ _).mpr hnone, rfl⟩)
    fun h => absurd trivial h

theorem loadRecord_completes (hvalid : StoreValid w) {record : DeploymentRecord}
    (hrecord : w.record? id = some record) :
    CompletesIff True (fun found w' => found = record ∧ w = w') (Operations.loadRecord id) w := by
  have hload : CompletesIff True (fun found w' => found = some record ∧ w = w')
      (Attempt.call (.record (.load id))
        (Except.mapError fun e => ⟨.notFound, "Could not inspect metadata: " ++ e⟩) :
          Action OperationError (Option DeploymentRecord)) w :=
    record_completes ⟨some record, by rw [← hrecord]; rfl, rfl, rfl⟩
  refine hload.then ?_
  rintro found w' ⟨rfl, rfl⟩
  have hrecordValid := hvalid.records record (List.mem_of_find?_eq_some hrecord)
  refine succeedsIff_passed (by rw [hrecordValid]; rfl) ?_
  have hid : record.id = id := by simpa using List.find?_some hrecord
  exact succeedsIff_passed ((ensure_eq_ok _ _).mpr (beq_iff_eq.mpr hid))
    (succeedsIff_pure ⟨rfl, rfl⟩)

theorem deleteLocked_completes (hvalid : StoreValid w) {record : DeploymentRecord}
    (hrecord : w.record? id = some record) (hunpinned : record.pinned = false)
    (hreference : Unreferenced id w) :
    CompletesIff (Completable id w) (fun _ w' => Gone id w')
      (Operations.deleteLocked id none) w := by
  have hbrowse : CompletesIff True (fun _ w' => w = w') (Operations.acquireBrowse id) w := by
    refine succeedsIff_call fun k hk => ⟨(), ?_⟩
    rw [perform_lock_of_faultless hk]
    exact ⟨rfl, rfl⟩
  refine hbrowse.then ?_
  rintro _ w' rfl
  refine (loadRecord_completes hvalid hrecord).then ?_
  rintro found w' ⟨rfl, rfl⟩
  refine (ensureNotTransactionReferenced_completes hvalid hreference).then ?_
  rintro _ w' rfl
  by_cases hstate : found.state = .deleting
  · rw [if_pos hstate]
    exact finishDeleting_completes hvalid hrecord hstate
  · rw [if_neg hstate]
    refine (beginDeleting_completes hvalid hrecord hunpinned hstate).then ?_
    rintro _ w' rfl
    have hid : found.id = id := by simpa using List.find?_some hrecord
    have hwritten : StoreValid { w with
        records := { found with state := .deleting } ::
          w.records.filter fun r => r.id != found.id } := by
      have hrecordValid := hvalid.records found (List.mem_of_find?_eq_some hrecord)
      have hop : WritesValid (.record (.write { found with state := .deleting })) :=
        validate_deleting hrecordValid
      exact hvalid.perform hop RollbackSafety.success
    have hfound : World.record? { w with
        records := { found with state := .deleting } ::
          w.records.filter fun r => r.id != found.id } id =
        some { found with state := .deleting } := by simp [World.record?, hid]
    exact finishDeleting_completes hwritten hfound rfl

theorem delete_completes (hvalid : StoreValid w) (hlocks : w.locks = ⟨false, false⟩)
    {record : DeploymentRecord} (hrecord : w.record? id = some record)
    (hunpinned : record.pinned = false) (hreference : Unreferenced id w) :
    CompletesIff (Completable id w) (fun _ w' => Gone id w')
      (Operations.delete .supported id) w := by
  refine succeedsIff_passed rfl ?_
  have hstore : CompletesIff True (fun _ w' => w = w') Operations.ensureStoreDirectories w := by
    refine succeedsIff_call fun k hk => ⟨(), ?_⟩
    rw [perform_lock_of_faultless hk]
    exact ⟨rfl, rfl⟩
  refine hstore.then ?_
  rintro _ w' rfl
  have hoperation : CompletesIff True (fun _ w' => w' = { w with locks := ⟨true, false⟩ })
      Operations.acquireLock w := by
    refine succeedsIff_call fun k hk => ⟨(), ?_⟩
    rw [perform_lock_of_faultless hk]
    simp [World.lockEffect, hlocks]
  have hstart : CompletesIff True (fun _ w' => w' = { w with locks := ⟨true, true⟩ })
      Operations.acquireStart { w with locks := ⟨true, false⟩ } := by
    refine succeedsIff_call fun k hk => ⟨(), ?_⟩
    rw [perform_lock_of_faultless hk]
    exact ⟨rfl, rfl⟩
  have hlocked : CompletesIff (Completable id w) (fun _ w' => Gone id w')
      (Operations.deleteLocked id none) { w with locks := ⟨true, true⟩ } := by
    refine deleteLocked_completes ?_ hrecord hunpinned ⟨hreference.rollback, hreference.package⟩
    exact ⟨hvalid.records, hvalid.ids, hvalid.pending, hvalid.package, hvalid.lineage⟩
  have hinner : CompletesIff (Completable id w) (fun _ w' => Gone id w')
      (Operations.withLock Operations.acquireStart .releaseStart (Operations.deleteLocked id none))
      { w with locks := ⟨true, false⟩ } := by
    have hrelease : ∀ (_ : Unit) w', Gone id w' → Gone id (w'.lockEffect .releaseStart).2 :=
      fun _ _ hgone => ⟨hgone.1, hgone.2, hgone.3⟩
    refine withLock_completes hstart ?_ hrelease
    rintro w' rfl
    exact hlocked
  have hrelease : ∀ (_ : Unit) w', Gone id w' → Gone id (w'.lockEffect .releaseOperation).2 :=
    fun _ _ hgone => ⟨hgone.1, hgone.2, hgone.3⟩
  refine withLock_completes hoperation ?_ hrelease
  rintro w' rfl
  exact hinner

end Completion

section Results

/-- In every store that the calls can leave behind, also when they fail or are killed, a
deletion in which nothing fails completes exactly when the snapshot is completable. -/
theorem delete_completes_iff {w₀ : World} (h : Initial w₀) (calls : List (Call × List Choice))
    {id : DeploymentId} {record : DeploymentRecord}
    (hrecord : (runCalls calls w₀).record? id = some record) (hunpinned : record.pinned = false)
    (hreference : Unreferenced id (runCalls calls w₀)) (choices : ℕ → Choice)
    (hfaultless : ∀ n, (choices n).Faultless) :
    ((Operations.delete .supported id).run.runToEnd perform choices (runCalls calls w₀)).1 =
        .ok () ∧
      Gone id
        ((Operations.delete .supported id).run.runToEnd perform choices (runCalls calls w₀)).2 ↔
      Completable id (runCalls calls w₀) := by
  have hcompletes := delete_completes (runCalls_valid calls h.valid) (runCalls_locks calls h.locks)
    hrecord hunpinned hreference
  obtain ⟨hok, herror⟩ := SucceedsIff.runToEnd hcompletes choices hfaultless
  constructor
  · rintro ⟨hresult, -⟩
    by_contra hnot
    obtain ⟨e, he⟩ := herror hnot
    rw [hresult] at he
    cases he
  · intro hcompletable
    obtain ⟨a, ha, hgone⟩ := hok hcompletable
    exact ⟨ha, hgone⟩

instance (id : DeploymentId) (w : World) : Decidable (Completable id w) :=
  decidable_of_iff (w.lineage.file.any fun lineage =>
    decide (w.lineage.encodedLength lineage + 1 ≤ maxLineageBytes) &&
    (lineage.nodes.find? fun node => node.recoveryPointId == id).any fun node =>
      !node.snapshotAvailable || decide (lineage.revision < maxRevision) &&
        decide (w.lineage.encodedLength (LineageStore.marked lineage id w.clock.now) ≤
          maxLineageBytes))
    (by simp [Completable, Option.any_eq_true])

def emptyStore : World :=
  { RollbackSafety.sampleWorld with records := [], pending := none }

def sampleId : DeploymentId := .repeated 5

def sampleCreate : Call :=
  .create .supported sampleId ⟨"t", "r", none, false, .manual, .ready⟩

theorem emptyStore_initial : Initial emptyStore where
  valid := by
    constructor <;> simp only [emptyStore, RollbackSafety.sampleWorld] <;> simp
  noLineage := rfl
  locks := rfl

/-- The creation is killed right after it has written its record. -/
def killedCreation : World :=
  runCalls [(sampleCreate, List.replicate 7 RollbackSafety.success)] emptyStore

/-- A deletion in which nothing fails does not complete: the lineage has no node for it. -/
theorem delete_fails_after_killed_creation :
    (killedCreation.record? sampleId).map (fun r => (r.state, r.pinned)) =
      some (.creating, false) ∧
    killedCreation.pending.isNone ∧ killedCreation.package.isNone ∧
    ((Operations.delete .supported sampleId).run.runToEnd perform
      (fun _ => RollbackSafety.success) killedCreation).1.isOk = false := by
  decide +kernel

def completedCreation : World :=
  runCalls [(sampleCreate, List.replicate 30 RollbackSafety.success)] emptyStore

theorem completedCreation_ready :
    (completedCreation.record? sampleId).map DeploymentRecord.pinned = some false ∧
    completedCreation.pending = none ∧ completedCreation.package.isNone ∧
      Completable sampleId completedCreation := by
  decide +kernel

/-- After a completed creation the deletion leaves nothing behind. -/
theorem delete_completes_after_creation :
    ((Operations.delete .supported sampleId).run.runToEnd perform
      (fun _ => RollbackSafety.success) completedCreation).1 = .ok () ∧
    Gone sampleId ((Operations.delete .supported sampleId).run.runToEnd perform
      (fun _ => RollbackSafety.success) completedCreation).2 := by
  obtain ⟨hrecord, hpending, hpackage, hcompletable⟩ := completedCreation_ready
  rw [Option.map_eq_some_iff] at hrecord
  obtain ⟨record, hrecord, hunpinned⟩ := hrecord
  rw [Option.isNone_iff_eq_none] at hpackage
  have hreference : Unreferenced sampleId completedCreation := by
    constructor
    · rw [hpending]
      exact fun t ht => by cases ht
    · rw [hpackage]
      exact fun t ht => by cases ht
  have hfaultless : RollbackSafety.success.Faultless := rfl
  exact (delete_completes_iff emptyStore_initial _ hrecord hunpinned hreference _
    fun _ => hfaultless).mpr hcompletable

end Results

end SnapshotDeletion

end RecoveryEngine
