import SynOSStudio.RecoveryEngine.Operations

/-!
# What the snapshot operations touch

A creation, a verification or a deletion of one snapshot writes only valid records of
that snapshot, and changes only its directory and its subvolume. It reads the pending
transactions but never writes them.
-/

namespace RecoveryEngine

open InterruptiblePrograms

namespace Operations

/-- The operations under the locks that concern the snapshot `id` or only read. -/
def Confined (id : DeploymentId) : HostOp → Prop
  | .now => True
  | .disk op =>
    match op with
    | .createDirectory d | .removeDirectory d | .snapshotSystem d | .deleteSnapshot d => d = id
    | .snapshotDeployment _ _ | .rename _ _ | .delete _ | .deleteDescendant _ _ => False
    | _ => True
  | .record (.write record) => record.id = id ∧ record.validate = .ok ()
  | .record (.remove d) => d = id
  | .record _ => True
  | .lineage _ => True
  | .rollback .load | .package .load => True
  | .rollback _ | .package _ | .cleanup _ => False
  | .boot .kernelRelease => True
  | .boot _ => False
  | .lock (.acquireBrowse _) | .lock .storeDirectories | .lock .freeSpace => True
  | .lock _ => False

/-- The operations that only read the store. -/
def Reading : HostOp → Prop
  | .disk op =>
    match op with
    | .show _ | .isReadOnly _ | .hashFile _ _ | .hashOptionalFile _ _ => True
    | _ => False
  | .record (.load _) | .record .discover | .rollback .load | .package .load => True
  | _ => False

theorem Reading.confined {op : HostOp} (id : DeploymentId) (h : Reading op) : Confined id op := by
  cases op with
  | disk op =>
    cases op with
    | «show» | isReadOnly | hashFile | hashOptionalFile => trivial
    | _ => cases h
  | record op =>
    cases op with
    | load | discover => trivial
    | _ => cases h
  | rollback op =>
    cases op with
    | load => trivial
    | _ => cases h
  | package op =>
    cases op with
    | load => trivial
    | _ => cases h
  | _ => cases h

variable {α : Type} {id : DeploymentId}

theorem confined_of_reading {p : Prog HostOp HostOp.Ans α} (h : Within Reading p) :
    Within (Confined id) p :=
  h.mono fun _ hop => hop.confined id

theorem confined_writeRecord {record : DeploymentRecord} (h : record.id = id) :
    Within (Confined id) (writeRecord record).run := by
  refine within_ofExcept_bind fun u hok => within_call _ ⟨h, ?_⟩
  cases hvalid : record.validate with
  | error e =>
    rw [hvalid] at hok
    cases hok
  | ok u => rfl

theorem confined_removeDeployment : Within (Confined id) (removeDeployment id).run := by
  refine within_attempt_bind (within_call _ trivial) fun present => ?_
  split_ifs
  · exact within_attempt_bind (within_call _ rfl) fun _ => within_call _ rfl
  · exact within_call _ rfl

section Creation

theorem confined_step {record : DeploymentRecord} {x : Action OperationError α}
    (h : Within (Confined id) x.run) : Within (Confined id) (step record x).run :=
  within_mapError h

theorem confined_readKernelRelease : Within (Confined id) readKernelRelease.run :=
  within_attempt_bind (within_call _ trivial) fun _ =>
    within_attempt_bind (within_ofExcept _) fun _ => within_pure _

theorem confined_capture {record : DeploymentRecord} (state : DeploymentState)
    (h : record.id = id) : Within (Confined id) (capture record state).run :=
  within_attempt_bind (confined_step (within_call _ h)) fun _ =>
    within_attempt_bind (confined_step (within_call _ h)) fun _ =>
    within_attempt_bind (confined_step (within_call _ trivial)) fun _ =>
    within_attempt_bind (confined_step (within_call _ trivial)) fun _ =>
    within_attempt_bind (confined_step confined_readKernelRelease) fun _ =>
    within_attempt_bind (confined_step (within_call _ trivial)) fun _ =>
    within_attempt_bind (confined_step (within_call _ trivial)) fun _ =>
    within_attempt_bind (confined_step (within_call _ trivial)) fun _ =>
    within_attempt_bind (confined_step (within_call _ trivial)) fun _ =>
    within_attempt_bind (confined_step (within_ofExcept _)) fun _ =>
    within_attempt_bind (confined_step (confined_writeRecord h)) fun _ =>
    within_attempt_bind (confined_step (within_call _ trivial)) fun _ =>
    within_attempt_bind (confined_step (within_call _ trivial)) fun _ => within_pure _

/-- The record of a capture, failed or not, keeps its identifier. -/
def OfId (id : DeploymentId) (r : Except (OperationError × DeploymentRecord) DeploymentRecord) :
    Prop :=
  match r with
  | .ok record => record.id = id
  | .error (_, record) => record.id = id

/-- A step that fails hands on the record as it was filled. -/
theorem yields_step {record : DeploymentRecord} {x : Action OperationError α}
    (h : record.id = id) :
    Yields (fun r => ∀ e, r = .error e → OfId id (.error e)) (step record x).run := by
  refine yields_bind (yields_true _) fun r _ => ?_
  cases r with
  | ok a => exact fun e he => by cases he
  | error e => exact fun e he => by cases he; exact h

theorem yields_capture {record : DeploymentRecord} (state : DeploymentState)
    (h : record.id = id) : Yields (OfId id) (capture record state).run :=
  yields_attempt_bind (yields_step h) fun _ =>
    yields_attempt_bind (yields_step h) fun _ =>
    yields_attempt_bind (yields_step h) fun _ =>
    yields_attempt_bind (yields_step h) fun _ =>
    yields_attempt_bind (yields_step h) fun _ =>
    yields_attempt_bind (yields_step h) fun _ =>
    yields_attempt_bind (yields_step h) fun _ =>
    yields_attempt_bind (yields_step h) fun _ =>
    yields_attempt_bind (yields_step h) fun _ =>
    yields_attempt_bind (yields_step h) fun _ =>
    yields_attempt_bind (yields_step h) fun _ =>
    yields_attempt_bind (yields_step h) fun _ =>
    yields_attempt_bind (yields_step h) fun _ => h

/-- A record that is returned is that of the snapshot. -/
def HasId {ε : Type} (id : DeploymentId) (r : Except ε DeploymentRecord) : Prop :=
  ∀ record, r = .ok record → record.id = id

theorem hasId_error {ε : Type} (e : ε) : HasId id (.error e) :=
  fun _ he => by cases he

theorem hasId_mapError {ε δ : Type} {f : ε → δ} {r : Except ε DeploymentRecord} (h : HasId id r) :
    HasId id (r.mapError f) := by
  cases r with
  | ok record => exact fun _ he => h _ (by cases he; rfl)
  | error e => exact fun _ he => by cases he

theorem yields_withLock {ε : Type} {acquire : Action ε Unit} {release : LockOp}
    {body : Action ε DeploymentRecord} (h : Yields (HasId id) body.run) :
    Yields (HasId id) (withLock acquire release body).run := by
  refine yields_attempt_last hasId_error fun _ => ?_
  refine yields_attempt_then (yields_outcome h) (fun e _ => hasId_error e) fun r hr => ?_
  exact yields_attempt_last hasId_error fun _ => hr r rfl

theorem yields_createSnapshot (layout : LayoutSupport) (request : SnapshotRequest) :
    Yields (HasId id) (createSnapshot layout id request).run := by
  refine yields_attempt_last hasId_error fun _ => yields_attempt_last hasId_error fun _ =>
    yields_attempt_last hasId_error fun _ => yields_withLock ?_
  refine yields_attempt_last hasId_error fun _ => yields_attempt_last hasId_error fun _ =>
    yields_attempt_last hasId_error fun _ => yields_attempt_last hasId_error fun _ =>
    yields_attempt_last hasId_error fun _ => ?_
  refine yields_attempt_then (yields_outcome (yields_capture _ rfl)) (fun e _ => hasId_error e)
    fun result hresult => ?_
  cases result with
  | ok record =>
    rintro _ ⟨⟩
    exact hresult _ rfl
  | error failure =>
    exact yields_attempt_last hasId_error fun _ => yields_attempt_last hasId_error fun _ =>
      hasId_error _

theorem confined_cleanupSnapshot : Within (Confined id) (cleanupSnapshot id).run :=
  within_attempt_bind confined_removeDeployment fun _ => within_call _ trivial

theorem confined_createSnapshotLocked (request : SnapshotRequest) (report : DiscoveryReport) :
    Within (Confined id) (createSnapshotLocked id request report).run := by
  refine within_attempt_bind (within_call _ trivial) fun lineage =>
    within_attempt_bind (within_call _ trivial) fun now =>
    within_attempt_bind (within_ofExcept _) fun _ =>
    within_attempt_bind (confined_writeRecord rfl) fun _ =>
    within_attempt_bind_of_yields (within_outcome (confined_capture _ rfl))
      (yields_outcome (yields_capture _ rfl)) fun result hresult => ?_
  cases result with
  | ok record => exact within_pure _
  | error failure =>
    obtain ⟨error, record⟩ := failure
    have hid : record.id = id := hresult _ rfl
    exact within_attempt_bind (within_outcome confined_cleanupSnapshot) fun _ =>
      within_attempt_bind (within_outcome (confined_writeRecord hid)) fun _ => within_throw _

end Creation

section Verification

theorem reading_loadRecord : Within Reading (loadRecord id).run := by
  refine within_attempt_bind (within_call _ trivial) fun found => ?_
  cases found with
  | none => exact within_throw _
  | some record =>
    exact within_attempt_bind (within_ofExcept _) fun _ =>
      within_attempt_bind (within_ofExcept _) fun _ => within_pure _

theorem yields_loadRecord : Yields (HasId id) (loadRecord id).run := by
  refine yields_attempt_bind (yields_call fun r => ?_) fun found => ?_
  · exact fun e _ record he => by cases he
  · cases found with
    | none => exact fun record he => by cases he
    | some record =>
      refine yields_attempt_bind ?_ fun _ => ?_
      · exact fun e _ record he => by cases he
      · show Yields _ (Attempt.ofExcept (ensure (record.id == id) _) >>= fun _ => pure record :
          Action OperationError DeploymentRecord).run
        by_cases hid : record.id = id
        · simp only [hid, beq_self_eq_true, ensure, if_true]
          rintro r ⟨⟩
          exact hid
        · have hne : (record.id == id) = false := by simpa using hid
          simp only [hne, ensure]
          exact fun r he => by cases he

/-- After the record is loaded it is compared with the snapshot. -/
theorem verifyLocked_reading (id : DeploymentId) :
    ∃ rest : DeploymentRecord → Action OperationError DeploymentRecord,
      verifyLocked id = loadRecord id >>= rest ∧
        ∀ record, Within Reading (rest record).run ∧
          (record.id = id → Yields (HasId id) (rest record).run) := by
  refine ⟨_, rfl, fun record => ⟨within_attempt_bind (within_ofExcept _) fun _ => ?_,
    fun hid => yields_attempt_last hasId_error fun _ => ?_⟩⟩
  · cases record.snapshotUuid with
    | none => exact within_throw _
    | some expected =>
      refine within_attempt_bind (within_call _ trivial) fun _ =>
        within_attempt_bind (within_ofExcept _) fun _ =>
        within_attempt_bind (within_ofExcept _) fun _ =>
        within_attempt_bind (within_attempt_bind (within_call _ trivial)
          fun _ => within_ofExcept _) fun _ => ?_
      cases record.kernelRelease with
      | none => exact within_throw _
      | some kernel =>
        exact within_attempt_bind (within_call _ trivial) fun _ =>
          within_attempt_bind (within_ofExcept _) fun _ =>
          within_attempt_bind (within_call _ trivial) fun _ =>
          within_attempt_bind (within_ofExcept _) fun _ =>
          within_attempt_bind (within_call _ trivial) fun _ =>
          within_attempt_bind (within_ofExcept _) fun _ =>
          within_attempt_bind (within_call _ trivial) fun _ =>
          within_attempt_bind (within_ofExcept _) fun _ => within_pure _
  · cases record.snapshotUuid with
    | none => exact hasId_error _
    | some expected =>
      refine yields_attempt_last hasId_error fun _ => yields_attempt_last hasId_error fun _ =>
        yields_attempt_last hasId_error fun _ => yields_attempt_last hasId_error fun _ => ?_
      cases record.kernelRelease with
      | none => exact hasId_error _
      | some kernel =>
        refine yields_attempt_last hasId_error fun _ => yields_attempt_last hasId_error fun _ =>
          yields_attempt_last hasId_error fun _ => yields_attempt_last hasId_error fun _ =>
          yields_attempt_last hasId_error fun _ => yields_attempt_last hasId_error fun _ =>
          yields_attempt_last hasId_error fun _ => yields_attempt_last hasId_error fun _ => ?_
        rintro _ ⟨⟩
        exact hid

theorem yields_verify (layout : LayoutSupport) (id : DeploymentId) :
    Yields (HasId id) (verify layout id).run := by
  refine yields_attempt_last hasId_error fun _ => yields_attempt_last hasId_error fun _ =>
    yields_withLock ?_
  obtain ⟨rest, hverify, hrest⟩ := verifyLocked_reading id
  rw [hverify]
  exact yields_attempt_then yields_loadRecord (fun e _ => hasId_error e)
    fun record hrecord => (hrest record).2 (hrecord _ rfl)

theorem reading_verifyLocked : Within Reading (verifyLocked id).run := by
  obtain ⟨rest, hverify, hrest⟩ := verifyLocked_reading id
  rw [hverify]
  exact within_attempt_bind reading_loadRecord fun record => (hrest record).1

end Verification

section Deletion

theorem reading_loadRollback : Within Reading TransactionStore.loadPending.run := by
  refine within_attempt_bind (within_call _ trivial) fun found => ?_
  cases found with
  | none => exact within_pure _
  | some t => exact within_attempt_bind (within_ofExcept _) fun _ => within_pure _

theorem reading_loadPackage : Within Reading PackageTransactionStore.loadPending.run := by
  refine within_attempt_bind (within_call _ trivial) fun found => ?_
  cases found with
  | none => exact within_pure _
  | some t => exact within_attempt_bind (within_ofExcept _) fun _ => within_pure _

theorem reading_ensureNotTransactionReferenced :
    Within Reading (ensureNotTransactionReferenced id).run :=
  within_attempt_bind (within_mapError reading_loadRollback) fun _ =>
    within_attempt_bind (within_ofExcept _) fun _ =>
    within_attempt_bind (within_mapError reading_loadPackage) fun _ => within_ofExcept _

theorem confined_finishDeleting : Within (Confined id) (finishDeleting id).run :=
  within_attempt_bind confined_removeDeployment fun _ =>
    within_attempt_bind (within_call _ trivial) fun _ =>
    within_attempt_bind (within_call _ trivial) fun _ =>
    within_attempt_bind (within_call _ trivial) fun _ =>
    within_attempt_bind (within_call _ trivial) fun _ =>
    within_attempt_bind (within_call _ rfl) fun _ => within_call _ trivial

theorem confined_beginDeleting {record : DeploymentRecord} (minimum : Option ℕ)
    (h : record.id = id) : Within (Confined id) (beginDeleting record minimum).run := by
  have hrest : Within (Confined id) (do
      Attempt.ofExcept (ensure record.canDelete
        ⟨.isProtected, "This system snapshot is pinned or protects a boot transaction"⟩)
      Attempt.ofExcept (ensure (record.state.canTransitionTo .deleting)
        ⟨.isProtected, "This system snapshot cannot enter the deleting state"⟩)
      writeRecord { record with state := .deleting } : Action OperationError Unit).run :=
    within_attempt_bind (within_ofExcept _) fun _ => within_attempt_bind (within_ofExcept _)
      fun _ => confined_writeRecord h
  cases minimum with
  | none => exact hrest
  | some minimum =>
    exact within_attempt_bind (within_attempt_bind (within_ofExcept _) fun _ =>
      within_attempt_bind (within_ofExcept _) fun _ =>
      within_attempt_bind (within_call _ trivial) fun _ =>
      within_attempt_bind (within_ofExcept _) fun _ => within_ofExcept _) fun _ => hrest

/-- What a deletion does once it has loaded the record and found no reference to it. -/
theorem confined_deleteLoaded {record : DeploymentRecord} (minimum : Option ℕ)
    (h : record.id = id) : Within (Confined id) (if record.state = .deleting then
      finishDeleting id
    else do
      beginDeleting record minimum
      finishDeleting id : Action OperationError Unit).run := by
  split_ifs
  · exact confined_finishDeleting
  · exact within_attempt_bind (confined_beginDeleting minimum h) fun _ => confined_finishDeleting

theorem confined_deleteLocked (minimum : Option ℕ) :
    Within (Confined id) (deleteLocked id minimum).run :=
  within_attempt_bind (within_call _ trivial) fun _ =>
    within_attempt_bind_of_yields (confined_of_reading reading_loadRecord) yields_loadRecord
      fun record hrecord =>
    within_attempt_bind (confined_of_reading reading_ensureNotTransactionReferenced) fun _ =>
    confined_deleteLoaded minimum (hrecord record rfl)

end Deletion

end Operations

end RecoveryEngine
