import SynOSStudio.RecoveryEngine.RollbackSafety.Boots

/-!
# The stored record stays valid

Every program validates a transaction before it stores it, so the pending record of
every state that a sequence of boots reaches is valid, and an interrupted restore is
found in one of the four layouts.
-/

namespace RecoveryEngine

open InterruptiblePrograms

namespace RollbackSafety

/-- A transaction is stored only if it is valid. -/
def StoresValid : HostOp → Prop
  | .rollback (.create t) | .rollback (.replace t) => t.Valid
  | _ => True

def PendingValid (w : World) : Prop :=
  ∀ t ∈ w.pending, t.Valid

theorem perform_pendingValid {op : HostOp} (h : StoresValid op) (k : Choice) {w : World}
    (hw : PendingValid w) : PendingValid (perform op k w).2 := by
  cases op with
  | rollback op =>
    rcases orFault_world k w (w.rollbackEffect op) with he | he
    · rw [show (perform (.rollback op) k w).2 = w from he]
      exact hw
    · rw [show (perform (.rollback op) k w).2 = (w.rollbackEffect op).2 from he]
      cases op with
      | create t =>
        cases hp : w.pending with
        | none =>
          simp only [World.rollbackEffect, hp]
          rintro _ ⟨⟩
          exact h
        | some t₀ => simpa only [World.rollbackEffect, hp] using hw
      | replace t =>
        cases hp : w.pending with
        | none => simpa only [World.rollbackEffect, hp] using hw
        | some t₀ =>
          simp only [World.rollbackEffect, hp]
          rintro _ ⟨⟩
          exact h
      | remove =>
        rintro _ ⟨⟩
      | load | archive t => exact hw
  | now => exact hw
  | disk op => obtain ⟨_, he⟩ := perform_disk k w op; exact he ▸ hw
  | record op => obtain ⟨_, he⟩ := perform_record k w op; exact he ▸ hw
  | lineage mutation => obtain ⟨_, he⟩ := perform_lineage k w mutation; exact he ▸ hw
  | package op => obtain ⟨_, _, he⟩ := perform_package k w op; exact he ▸ hw
  | cleanup op => obtain ⟨_, he⟩ := perform_cleanup k w op; exact he ▸ hw
  | boot op => obtain ⟨_, he⟩ := perform_boot k w op; exact he ▸ hw
  | lock op => obtain ⟨_, he⟩ := perform_lock k w op; exact he ▸ hw

theorem storesValid_of_quiet (op : HostOp) (h : Quiet op) : StoresValid op := by
  cases op with
  | rollback op => cases op <;> simp_all [Quiet, StoresValid]
  | _ => trivial

theorem storesValid_of_cleansUp (op : HostOp) (h : CleansUp op) : StoresValid op := by
  rcases h with h | ⟨name, -, rfl | ⟨path, rfl⟩⟩
  · exact storesValid_of_quiet op h
  · trivial
  · trivial

section Programs

variable {t : RollbackTransaction}

theorem within_update (t : RollbackTransaction) :
    Within StoresValid (TransactionStore.update t).run :=
  within_ofExcept_bind fun _ hok =>
    within_call _ ((RollbackTransaction.validate_eq_ok t).mp hok)

theorem within_stored (change : Timestamp → Except TransactionError RollbackTransaction) :
    Within StoresValid (Recovery.stored change).run :=
  within_attempt_bind (within_call _ trivial) fun _ => within_attempt_bind (within_ofExcept _)
    fun t => within_attempt_bind (within_mapError (within_update t)) fun _ => within_pure _

theorem within_enterPhase (phase : RollbackPhase) (value : RecoveryCheckpoint) :
    Within StoresValid (Recovery.enterPhase t phase value).run :=
  within_attempt_bind (within_call _ trivial) fun _ => within_attempt_bind (within_ofExcept _)
    fun _ => within_stored _

theorem within_moved {op : DiskOp} {view : Except String op.Result → Except RecoveryError Unit}
    (value : RecoveryCheckpoint) :
    Within StoresValid (Recovery.moved (Attempt.call (.disk op) view) t value).run :=
  within_attempt_bind (within_call _ trivial) fun _ =>
    within_attempt_bind (within_call _ trivial) fun _ => within_stored _

theorem within_observe : Within StoresValid (Recovery.observe t).run :=
  within_attempt_bind (within_call _ trivial) fun _ =>
    within_attempt_bind (within_call _ trivial) fun _ =>
      within_attempt_bind (within_call _ trivial) fun _ => within_pure _

theorem within_apply (rounds : ℕ) : Within StoresValid (Recovery.apply rounds t).run := by
  induction rounds generalizing t with
  | zero => exact within_throw _
  | succ rounds ih =>
    refine within_attempt_bind within_observe fun state => ?_
    split
    · exact within_attempt_bind (within_moved _) fun _ => ih
    · exact within_attempt_bind (within_moved _) fun _ => ih
    · exact within_attempt_bind (within_moved _) fun _ => ih
    · exact within_pure _
    · exact within_throw _

theorem within_revert (rounds : ℕ) : Within StoresValid (Recovery.revert rounds t).run := by
  induction rounds generalizing t with
  | zero => exact within_throw _
  | succ rounds ih =>
    refine within_attempt_bind within_observe fun state => ?_
    split
    · exact within_pure _
    · exact within_attempt_bind (within_moved _) fun _ => ih
    · exact within_attempt_bind (within_moved _) fun _ => ih
    · exact within_attempt_bind (within_moved _) fun _ => ih
    · exact within_attempt_bind (within_moved _) fun _ => ih
    · exact within_throw _

theorem within_finishRevert : Within StoresValid (Recovery.finishRevert t).run :=
  within_attempt_bind (within_revert _) fun _ => within_attempt_bind (within_enterPhase _ _)
    fun _ => within_pure _

theorem within_revertTransaction : Within StoresValid (Recovery.revertTransaction t).run :=
  within_attempt_bind (within_enterPhase _ _) fun _ => within_finishRevert

theorem within_enterInitramfs (bootId : String) :
    Within StoresValid (Recovery.enterInitramfs t bootId).run :=
  within_attempt_bind (within_stored _) fun _ => within_stored _

theorem within_applyTarget (bootId : String) :
    Within StoresValid (Recovery.applyTarget t bootId).run :=
  within_attempt_bind (within_stored _) fun _ => within_attempt_bind (within_apply _) fun _ =>
    within_attempt_bind (within_enterPhase _ _) fun _ => within_pure _

theorem within_validated : Within StoresValid (Recovery.validateDeployments t).run :=
  within_validateDeployments.mono storesValid_of_quiet

theorem within_executeArmed (requested : Option RollbackId) (bootId : String) :
    Within StoresValid (Recovery.executeArmed t requested bootId).run := by
  unfold Recovery.executeArmed
  split_ifs
  · exact within_attempt_bind (within_stored _) fun _ => within_pure _
  · exact within_pure _
  · exact within_attempt_bind (within_stored _) fun _ => within_pure _
  · refine within_attempt_bind (within_enterInitramfs bootId) fun t' =>
      within_attempt_bind (within_outcome within_validated) fun validation => ?_
    cases validation with
    | error e => exact within_attempt_bind (within_stored _) fun _ => within_throw _
    | ok u => exact within_applyTarget bootId

theorem within_executeApplying (requested : Option RollbackId) (bootId : String) :
    Within StoresValid (Recovery.executeApplying t requested bootId).run := by
  unfold Recovery.executeApplying
  split_ifs
  · exact within_attempt_bind (within_enterInitramfs bootId) fun _ =>
      within_attempt_bind within_validated fun _ => within_applyTarget bootId
  · exact within_revertTransaction

theorem within_loadPending : Within StoresValid TransactionStore.loadPending.run := by
  refine within_attempt_bind (within_call _ trivial) fun found => ?_
  cases found with
  | none => exact within_pure _
  | some t => exact within_attempt_bind (within_ofExcept _) fun _ => within_pure _

theorem within_execute (requested : Option RollbackId) (bootId : String) :
    Within StoresValid (Recovery.execute requested bootId).run := by
  refine within_attempt_bind (within_call _ trivial) fun _ =>
    within_attempt_bind (within_mapError within_loadPending) fun found => ?_
  cases found with
  | none => exact within_pure _
  | some t =>
    simp only
    split
    · exact within_pure _
    · exact within_pure _
    · exact within_pure _
    · exact within_pure _
    · exact within_executeArmed requested bootId
    · exact within_executeApplying requested bootId
    · split_ifs
      · exact within_pure _
      · exact within_revertTransaction
    · exact within_finishRevert

theorem within_finishRecorded : Within StoresValid (Confirmation.finishRecorded t).run :=
  within_attempt_bind (within_call _ trivial) fun _ =>
    within_attempt_bind (within_mapError (within_attempt_bind (within_ofExcept _) fun _ =>
      within_attempt_bind (within_ofExcept _) fun _ => within_call _ trivial)) fun _ =>
    within_attempt_bind (within_mapError (within_call _ trivial)) fun _ => within_call _ trivial

theorem within_lineageActivation (outcome : ActivationOutcome) :
    Within StoresValid (Confirmation.recordLineageActivation t outcome).run :=
  (within_recordLineageActivation outcome).mono storesValid_of_quiet

theorem within_scheduleOldRootCleanup :
    Within StoresValid (Confirmation.scheduleOldRootCleanup t).run := by
  refine within_attempt_bind (within_call _ trivial) fun now =>
    within_attempt_bind ((within_loadCleanup _).mono storesValid_of_cleansUp) fun existing => ?_
  cases existing with
  | none =>
    exact within_attempt_bind ((within_writeCleanup _).mono storesValid_of_cleansUp)
      fun _ => within_pure _
  | some record => exact within_attempt_bind (within_ofExcept _) fun _ => within_pure _

theorem within_reportConfirmed : Within StoresValid (Confirmation.reportConfirmed t).run := by
  refine within_attempt_bind (within_attempt_bind (within_lineageActivation _) fun _ =>
    within_attempt_bind within_scheduleOldRootCleanup fun _ => ?_) fun _ => within_pure _
  refine within_attempt_bind (within_call _ trivial) fun _ =>
    within_attempt_bind (within_mapError (within_attempt_bind (within_ofExcept _) fun _ =>
      within_attempt_bind (within_ofExcept _) fun _ => within_call _ trivial)) fun _ =>
    within_attempt_bind (within_mapError (within_call _ trivial)) fun _ =>
    within_attempt_bind (within_call _ trivial) fun _ => within_attempt_bind
      (within_retryPendingRootCleanups.mono storesValid_of_cleansUp) fun _ => within_pure _

theorem within_reconcileArmed : Within StoresValid (Confirmation.reconcileArmed t).run := by
  refine within_attempt_bind (within_attempt_bind (within_call _ trivial) fun _ =>
    within_ofExcept _) fun requested => ?_
  split_ifs
  · exact within_attempt_bind (within_call _ trivial) fun _ =>
      within_attempt_bind (within_ofExcept _) fun t' =>
      within_attempt_bind (within_mapError (within_update t')) fun _ =>
      within_attempt_bind within_finishRecorded fun _ => within_pure _
  · exact within_pure _

theorem within_reconcileBooted : Within StoresValid (Confirmation.reconcileBooted t).run :=
  within_attempt_bind (within_verifyRunningTarget.mono storesValid_of_quiet) fun _ =>
    within_attempt_bind (within_call _ trivial) fun _ =>
    within_attempt_bind (within_ofExcept _) fun t' =>
    within_attempt_bind (within_mapError (within_update t')) fun _ => within_reportConfirmed

theorem within_reconcile : Within StoresValid Confirmation.reconcile.run := by
  refine within_attempt_bind (within_mapError within_loadPending) fun found => ?_
  cases found with
  | none =>
    refine within_attempt_bind (within_retryPendingRootCleanups.mono storesValid_of_cleansUp)
      fun pass => ?_
    cases pass <;> exact within_pure _
  | some t =>
    simp only
    split
    · exact within_reconcileArmed
    · exact within_reconcileBooted
    · exact within_reportConfirmed
    · exact within_attempt_bind (within_attempt_bind (within_lineageActivation _) fun _ =>
        within_finishRecorded) fun _ => within_pure _
    · exact within_attempt_bind within_finishRecorded fun _ => within_pure _
    · exact within_pure _
    · exact within_pure _
    · exact within_pure _

end Programs

/-- A program that stores only valid records, wherever it is cut off. -/
theorem run_pendingValid {α : Type} {p : Prog HostOp HostOp.Ans α} (hp : Within StoresValid p)
    (script : List Choice) {s : State} (h : PendingValid s.1) :
    PendingValid (p.run (logged perform) script s).2.1 := by
  have hkeeps : Keeps (logged perform) (fun _ => True) (fun s => PendingValid s.1) p
      (fun _ s => PendingValid s.1) s :=
    Keeps.of_within (fun _ k _ hop _ hs => perform_pendingValid hop k hs) (fun _ hs => hs) hp h
  exact hkeeps.run_inv (fun _ _ hs => hs) script fun _ _ => trivial

theorem Boot.run_pendingValid (boot : Boot) {s : State} (h : PendingValid s.1) :
    PendingValid (boot.run s).1 := by
  have hexecute := RollbackSafety.run_pendingValid (within_execute boot.requested boot.bootId)
    boot.initramfs h
  unfold Boot.run
  dsimp only
  split
  · exact RollbackSafety.run_pendingValid within_reconcile _ hexecute
  · exact hexecute

theorem runBoots_pendingValid (boots : List Boot) {s : State} (h : PendingValid s.1) :
    PendingValid (runBoots boots s).1 := by
  induction boots generalizing s with
  | nil => exact h
  | cons boot boots ih => exact ih (boot.run_pendingValid h)

end RollbackSafety

end RecoveryEngine
