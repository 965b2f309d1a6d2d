import SynOSStudio.RecoveryEngine.RollbackSafety.Initramfs

/-!
# The userspace engine keeps the invariant

Until a confirmation is stored, `reconcile` only reads, records failures, and
finishes transactions that left the system as it was. The deletion of old roots
runs while no restore is pending and never touches `@root`.
-/

namespace RecoveryEngine

open InterruptiblePrograms

namespace RollbackSafety

variable {R : Restore}

section Userspace

variable {t : RollbackTransaction} {disk : Disk} {reverting : Bool} {s : State}

/-- What the deletion of old roots may do. -/
def CleansUp (op : HostOp) : Prop :=
  Quiet op ∨ ∃ name, name ≠ rootName ∧
    (op = .disk (.delete name) ∨ ∃ path, op = .disk (.deleteDescendant name path))

theorem ne_root_of_validateOldRootName {name : String}
    (h : Confirmation.validateOldRootName name = .ok ()) : name ≠ rootName := by
  rintro rfl
  exact absurd h (by decide)

theorem within_deleteDescendants {allowed : HostOp → Prop} {name : String}
    (hinspect : ∀ path, allowed (.disk (.inspectDescendant name path)))
    (hdelete : ∀ path, allowed (.disk (.deleteDescendant name path)))
    (paths : List (List String)) :
    Within allowed (Confirmation.deleteDescendants name paths).run := by
  induction paths with
  | nil => exact within_pure _
  | cons path paths ih =>
    refine within_attempt_bind (within_call _ (hinspect path)) fun found => ?_
    rcases found with _ | _ | _
    · exact ih
    · exact within_attempt_bind ih fun _ => within_pure _
    · exact within_attempt_bind (within_call _ (hdelete path)) fun _ => ih

theorem within_cleanupOldRootAt (name : String) :
    Within CleansUp (Confirmation.cleanupOldRootAt name).run := by
  refine within_ofExcept_bind fun u hok => ?_
  have hname := ne_root_of_validateOldRootName hok
  refine within_attempt_bind (within_call _ (.inl trivial)) fun present => ?_
  cases present with
  | false => exact within_pure _
  | true =>
    refine within_attempt_bind (within_call _ (.inl trivial)) fun descendants =>
      within_attempt_bind (within_deleteDescendants (fun _ => .inl trivial)
        (fun path => .inr ⟨name, hname, .inr ⟨path, rfl⟩⟩) _) fun blocked => ?_
    cases blocked with
    | nil =>
      exact within_attempt_bind (within_call _ (.inr ⟨name, hname, .inl rfl⟩)) fun _ =>
        within_pure _
    | cons b bs => exact within_pure _

theorem within_cleanupOldRoot (record : RootCleanupRecord) :
    Within CleansUp (Confirmation.cleanupOldRoot record).run := by
  refine within_attempt_bind (within_call _ (.inl trivial)) fun _ =>
    within_attempt_bind (within_call _ (.inl trivial)) fun _ =>
    within_attempt_bind (within_outcome (within_cleanupOldRootAt _)) fun result =>
    within_attempt_bind (within_outcome (within_call _ (.inl trivial))) fun unmount => ?_
  cases result with
  | error e => exact within_throw _
  | ok outcome =>
    cases unmount with
    | error e => exact within_throw _
    | ok u => exact within_pure _

theorem within_loadCleanup (id : RollbackId) :
    Within CleansUp (Confirmation.loadCleanup id).run := by
  refine within_attempt_bind (within_call _ (.inl trivial)) fun found => ?_
  cases found with
  | none => exact within_pure _
  | some record => exact within_attempt_bind (within_ofExcept _) fun _ => within_pure _

theorem within_writeCleanup (record : RootCleanupRecord) :
    Within CleansUp (Confirmation.writeCleanup record).run :=
  within_attempt_bind (within_ofExcept _) fun _ => within_call _ (.inl trivial)

theorem within_deferOldRootCleanup (record : RootCleanupRecord) (blocked : List String)
    (diagnostic : String) :
    Within CleansUp (Confirmation.deferOldRootCleanup record blocked diagnostic).run := by
  refine within_attempt_bind (within_call _ (.inl trivial)) fun _ =>
    within_attempt_bind (within_ofExcept _) fun _ =>
    within_attempt_bind (within_loadCleanup _) fun existing => ?_
  cases existing with
  | none => exact within_throw _
  | some _ => exact within_writeCleanup _

theorem within_retryRecords (records : List RootCleanupRecord) :
    Within CleansUp (Confirmation.retryRecords records).run := by
  induction records with
  | nil => exact within_pure _
  | cons record records ih =>
    refine within_attempt_bind (within_outcome (within_cleanupOldRoot record)) fun result => ?_
    rcases result with e | _ | ⟨blocked, diagnostic⟩
    · exact within_attempt_bind (within_deferOldRootCleanup _ _ _) fun _ =>
        within_attempt_bind ih fun _ => within_pure _
    · exact within_attempt_bind (within_call _ (.inl trivial)) fun _ => ih
    · exact within_attempt_bind (within_deferOldRootCleanup _ _ _) fun _ =>
        within_attempt_bind ih fun _ => within_pure _

theorem within_retryPendingRootCleanups :
    Within CleansUp Confirmation.retryPendingRootCleanups.run := by
  refine within_attempt_bind (within_attempt_bind (within_call _ (.inl trivial)) fun _ =>
    within_attempt_bind (within_ofExcept _) fun _ =>
    within_attempt_bind (within_ofExcept _) fun _ => within_pure _) fun records => ?_
  cases records with
  | nil => exact within_pure _
  | cons record records =>
    exact within_attempt_bind (within_retryRecords _) fun _ => within_pure _

/-- No restore is pending and the system runs as it did before. -/
def Idle (R : Restore) (s : State) : Prop :=
  ∃ disk reverting, Here R none disk reverting s ∧ RootLayout.untouched.Holds R disk ∧
    R.Kept disk

theorem Idle.safe (h : Idle R s) : Safe R s := by
  obtain ⟨disk, reverting, h, hholds, hkept⟩ := h
  exact h.safe ⟨by simp, ⟨.untouched, hholds, rfl⟩, hkept, by simp⟩

/-- Deleting another subvolume, or a descendant of one, touches nothing of the restore. -/
theorem setTop_untouched {name : String} {value : Option Subvolume} (hname : name ≠ rootName)
    (hvalue : ∀ v ∈ value, ∃ v₀, disk.top name = some v₀ ∧ v₀.subvolId = v.subvolId)
    (hholds : RootLayout.untouched.Holds R disk) (hkept : R.Kept disk) :
    RootLayout.untouched.Holds R (disk.setTop name value) ∧ R.Kept (disk.setTop name value) := by
  obtain ⟨hr, ho, hn⟩ := hholds
  have habsent : ∀ other, disk.top other = none → (disk.setTop name value).top other = none := by
    intro other hother
    by_cases hne : other = name
    · subst hne
      cases value with
      | none => simp
      | some v =>
        obtain ⟨v₀, hv₀, -⟩ := hvalue v rfl
        simp [hother] at hv₀
    · simp [Function.update_of_ne hne, hother]
  refine ⟨⟨by simp [Function.update_of_ne hname.symm, hr], habsent _ ho, habsent _ hn⟩,
    hkept.snapshots, hkept.used, fun other v h₁ h₂ h₃ hv => ?_⟩
  by_cases hne : other = name
  · subst hne
    simp only [Disk.setTop_top, Function.update_self] at hv
    obtain ⟨v₀, hv₀, hid⟩ := hvalue v hv
    exact hid ▸ hkept.elsewhere other v₀ h₁ h₂ h₃ hv₀
  · simp only [Disk.setTop_top, Function.update_of_ne hne] at hv
    exact hkept.elsewhere other v h₁ h₂ h₃ hv

theorem Idle.cleansUp {op : HostOp} (h : Idle R s) (hop : CleansUp op) (k : Choice) :
    Idle R (logged perform op k s).2 := by
  obtain ⟨disk, reverting, hhere, hholds, hkept⟩ := h
  rcases hop with hq | ⟨name, hname, rfl | ⟨path, rfl⟩⟩
  · exact ⟨disk, reverting, hhere.quiet hq k, hholds, hkept⟩
  · have happly : IsApply R (.disk (.delete name)) → reverting = false := False.elim
    rcases hhere.command happly k with ⟨e, -, h'⟩ | ⟨uuid, text, -, h'⟩
    · exact ⟨disk, reverting, h', hholds, hkept⟩
    · refine ⟨_, reverting, h', ?_⟩
      cases htop : disk.top name with
      | none => simpa [Disk.effect, htop] using ⟨hholds, hkept⟩
      | some v =>
        simp only [Disk.effect, htop]
        exact setTop_untouched hname (by simp) hholds hkept
  · have happly : IsApply R (.disk (.deleteDescendant name path)) → reverting = false :=
      False.elim
    rcases hhere.command happly k with ⟨e, -, h'⟩ | ⟨uuid, text, -, h'⟩
    · exact ⟨disk, reverting, h', hholds, hkept⟩
    · refine ⟨_, reverting, h', setTop_untouched hname ?_ hholds hkept⟩
      intro v hv
      obtain ⟨v₀, hv₀, rfl⟩ := Option.map_eq_some_iff.mp hv
      exact ⟨v₀, hv₀, rfl⟩

/-- The retries of old deletions keep an idle system idle. -/
theorem cleanup_spec {α : Type} {p : Prog HostOp HostOp.Ans α} (h : Idle R s)
    (hp : Within CleansUp p) : Always R p (fun _ s' => Safe R s') s := by
  have hkept : Always R p (fun _ s' => Idle R s') s :=
    Keeps.of_within (fun _ k _ hop _ h => h.cleansUp hop k) (fun _ h => h.safe) hp h
  exact hkept.mono fun _ _ h => h.safe

theorem remove_spec (h : Here R (some t) disk reverting s)
    (hs : Sound R (some t) disk reverting) :
    Always R TransactionStore.remove.run (fun r s' =>
      match r with
      | .ok () => Here R none disk reverting s'
      | .error _ => Here R (some t) disk reverting s') s := by
  refine (keeps_attempt_call _ _ _ _).mpr ⟨h.safe hs, fun k _ => ?_⟩
  have hlog : ∀ answer, (Stored .reverting (s.2 ++ [⟨.rollback .remove, answer⟩]) →
      reverting = true) ∧ NoApplyAfterRevert R (s.2 ++ [⟨.rollback .remove, answer⟩]) := by
    refine fun answer => ⟨fun hst => ?_, noApplyAfterRevert_append h.order (by simp [IsApply])⟩
    rcases stored_append.mp hst with hlog | he
    · exact h.stored hlog
    · simp [storedPhase] at he
  cases hk : k.fault with
  | some e =>
    simp only [logged, perform, orFault, hk, Except.mapError]
    exact ⟨h.pending_eq, h.disk_eq, (hlog _).1, (hlog _).2⟩
  | none =>
    simp only [logged, perform, orFault, hk, World.rollbackEffect, Except.mapError]
    exact ⟨rfl, h.disk_eq, (hlog _).1, (hlog _).2⟩

/-- The bookkeeping of a transaction that left the system as it was. -/
theorem finishRecorded_spec (h : Here R (some t) disk reverting s)
    (hs : Sound R (some t) disk reverting) (hholds : RootLayout.untouched.Holds R disk) :
    Always R (Confirmation.finishRecorded t).run (fun _ s' => Safe R s') s := by
  have hclear : Within Quiet Confirmation.clearOnce.run := within_call _ trivial
  have harchive : Within Quiet (Confirmation.archiveTransaction t).run :=
    within_mapError (within_attempt_bind (within_ofExcept _) fun _ =>
      within_attempt_bind (within_ofExcept _) fun _ => within_call _ trivial)
  refine (keeps_attempt_bind _ _ _ _).mpr ((quiet_spec h hs hclear).mono fun r s₁ h₁ => ?_)
  cases r with
  | error e => exact h₁.safe hs
  | ok u =>
    refine (keeps_attempt_bind _ _ _ _).mpr ((quiet_spec h₁ hs harchive).mono fun r s₂ h₂ => ?_)
    cases r with
    | error e => exact h₂.safe hs
    | ok u =>
      refine (keeps_attempt_bind _ _ _ _).mpr ((keeps_mapError _ _ _ _).mpr
        ((remove_spec h₂ hs).mono fun r s₃ h₃ => ?_))
      cases r with
      | error e => exact h₃.safe hs
      | ok u =>
        exact cleanup_spec ⟨_, _, h₃, hholds, hs.kept⟩ (within_call _ (.inl trivial))

theorem within_recordLineageActivation (outcome : ActivationOutcome) :
    Within Quiet (Confirmation.recordLineageActivation t outcome).run :=
  within_attempt_bind (within_call _ trivial) fun _ =>
    within_attempt_bind (within_call _ trivial) fun _ =>
    within_attempt_bind (within_call _ trivial) fun _ =>
    within_attempt_bind (within_call _ trivial) fun _ => within_pure _

theorem finishReverted_spec (h : Here R (some t) disk reverting s)
    (hs : Sound R (some t) disk reverting) (hholds : RootLayout.untouched.Holds R disk) :
    Always R (Confirmation.finishReverted t).run (fun _ s' => Safe R s') s := by
  refine (keeps_attempt_bind _ _ _ _).mpr
    ((quiet_spec h hs (within_recordLineageActivation _)).mono fun r s₁ h₁ => ?_)
  cases r with
  | error e => exact h₁.safe hs
  | ok u => exact finishRecorded_spec h₁ hs hholds

/-- A userspace step of the record, stored. -/
theorem updateTransaction_spec {t' : RollbackTransaction} (h : Here R (some t) disk reverting s)
    (hs : Sound R (some t) disk reverting) :
    Always R (Confirmation.updateTransaction t').run (fun r s' =>
      match r with
      | .ok () => Here R (some t') disk (reverting || decide (t'.phase = .reverting)) s' ∧
          (t'.phase = .confirmed → Stored .confirmed s'.2)
      | .error _ => Here R (some t) disk reverting s') s := by
  refine (keeps_mapError _ _ _ _).mpr ((update_spec h hs).mono fun r s' hr => ?_)
  cases r <;> exact hr

theorem reconcileArmed_spec (h : Here R (some t) disk reverting s)
    (hs : Sound R (some t) disk reverting) (hphase : t.phase = .armed) :
    Always R (Confirmation.reconcileArmed t).run (fun _ s' => Safe R s') s := by
  have hrequested : Within Quiet Confirmation.requestedRollback.run :=
    within_attempt_bind (within_call _ trivial) fun _ => within_ofExcept _
  obtain ⟨layout, hholds, hcons⟩ := hs.layout
  obtain rfl : layout = .untouched := by simpa [hphase, Consistent] using hcons
  have hfalse := hs.not_reverting (by simp [hphase]) (by simp [hphase])
  refine (keeps_attempt_bind _ _ _ _).mpr ((quiet_spec h hs hrequested).mono fun r s₁ h₁ => ?_)
  cases r with
  | error e => exact h₁.safe hs
  | ok requested =>
    by_cases hr : requested = some t.id
    · simp only [hr, if_true]
      refine (keeps_attempt_bind _ _ _ _).mpr ((utcNow_spec h₁ hs).mono fun r s₂ hr => ?_)
      obtain ⟨h₂, now, rfl⟩ := hr
      refine (keeps_attempt_bind _ _ _ _).mpr ?_
      rw [keeps_ofExcept]
      cases hfail : t.recordFailure
          "The recovery boot reached userspace without entering the initramfs recovery engine"
          now with
      | error e => exact h₂.safe hs
      | ok t' =>
        obtain ⟨-, ht'⟩ := RollbackTransaction.recordFailure_eq_ok hfail
        have hp : t'.phase = .failed := by rw [ht']
        refine (keeps_attempt_bind _ _ _ _).mpr
          ((updateTransaction_spec h₂ hs).mono fun r s₃ hr => ?_)
        cases r with
        | error e => exact hr.safe hs
        | ok u =>
          have h₃ : Here R (some t') disk reverting s₃ := by simpa [hp] using hr.1
          have hs₃ : Sound R (some t') disk reverting := by
            refine ⟨?_, ⟨.untouched, hholds, by simp [hp, Consistent]⟩, hs.kept, by simp [hfalse]⟩
            rintro _ ⟨⟩
            exact ⟨ht' ▸ (hs.owned t rfl).id, ht' ▸ (hs.owned t rfl).target⟩
          refine (keeps_attempt_bind _ _ _ _).mpr
            ((finishRecorded_spec h₃ hs₃ hholds).mono fun r s₄ hr => ?_)
          cases r <;> exact hr
    · simp only [hr, if_false]
      exact h₁.safe hs

theorem within_verifyRunningTarget : Within Quiet (Confirmation.verifyRunningTarget t).run := by
  have hload : Within Quiet (Confirmation.deployment t.targetDeploymentId).run := by
    refine within_mapError (within_attempt_bind (within_call _ trivial) fun found => ?_)
    cases found with
    | none => exact within_throw _
    | some record => exact within_attempt_bind (within_ofExcept _) fun _ =>
      within_attempt_bind (within_ofExcept _) fun _ => within_pure _
  have hparent : Within Quiet Confirmation.currentSnapshotParentUuid.run := by
    refine within_attempt_bind (within_call _ trivial) fun parent => ?_
    cases parent with
    | none => exact within_throw _
    | some value => exact within_pure _
  refine within_attempt_bind (within_attempt_bind (within_call _ trivial) fun _ =>
      within_ofExcept _) fun _ => within_attempt_bind (within_ofExcept _) fun _ =>
    within_attempt_bind (within_attempt_bind (within_call _ trivial) fun _ =>
      within_attempt_bind (within_ofExcept _) fun _ => within_pure _) fun _ =>
    within_attempt_bind (within_ofExcept _) fun _ => within_attempt_bind hload fun target => ?_
  cases target.snapshotUuid with
  | none => exact within_throw _
  | some expected => exact within_attempt_bind hparent fun _ => within_ofExcept _

theorem reconcileBooted_spec (h : Here R (some t) disk reverting s)
    (hs : Sound R (some t) disk reverting) :
    Always R (Confirmation.reconcileBooted t).run (fun _ s' => Safe R s') s := by
  refine (keeps_attempt_bind _ _ _ _).mpr
    ((quiet_spec h hs within_verifyRunningTarget).mono fun r s₁ h₁ => ?_)
  cases r with
  | error e => exact h₁.safe hs
  | ok u =>
    refine (keeps_attempt_bind _ _ _ _).mpr ((utcNow_spec h₁ hs).mono fun r s₂ hr => ?_)
    obtain ⟨h₂, now, rfl⟩ := hr
    refine (keeps_attempt_bind _ _ _ _).mpr ?_
    rw [keeps_ofExcept]
    cases htr : t.transition .confirmed now with
    | error e => exact h₂.safe hs
    | ok t' =>
      obtain ⟨-, -, ht'⟩ := RollbackTransaction.transition_eq_ok htr
      refine (keeps_attempt_bind _ _ _ _).mpr
        ((updateTransaction_spec h₂ hs).mono fun r s₃ hr => ?_)
      cases r with
      | error e => exact hr.safe hs
      | ok u => exact confirmed_spec (hr.2 (by rw [ht']))

theorem reconcile_here_spec {pending : Option RollbackTransaction}
    (h : Here R pending disk reverting s) (hs : Sound R pending disk reverting) :
    Always R Confirmation.reconcile.run (fun _ s' => Safe R s') s := by
  refine (keeps_attempt_bind _ _ _ _).mpr ((keeps_mapError _ _ _ _).mpr
    ((loadPending_spec h hs).mono fun r s₁ hr => ?_))
  obtain ⟨h₁, hfound⟩ := hr
  cases r with
  | error e => exact h₁.safe hs
  | ok found =>
    obtain rfl := hfound found rfl
    obtain ⟨layout, hholds, hcons⟩ := hs.layout
    cases found with
    | none =>
      obtain rfl : layout = .untouched := hcons
      refine cleanup_spec ⟨_, _, h₁, hholds, hs.kept⟩
        (within_attempt_bind within_retryPendingRootCleanups fun pass => ?_)
      cases pass <;> exact within_pure _
    | some t =>
      simp only [Except.mapError]
      split
      · rename_i hphase
        exact reconcileArmed_spec h₁ hs hphase
      · exact reconcileBooted_spec h₁ hs
      · rename_i hphase
        simp [hphase, Consistent] at hcons
      · rename_i hphase
        obtain rfl : layout = .untouched := by simpa [hphase, Consistent] using hcons
        refine (keeps_attempt_bind _ _ _ _).mpr
          ((finishReverted_spec h₁ hs hholds).mono fun r s₂ hr => ?_)
        cases r <;> exact hr
      · rename_i hphase
        obtain rfl : layout = .untouched := by simpa [hphase, Consistent] using hcons
        refine (keeps_attempt_bind _ _ _ _).mpr
          ((finishRecorded_spec h₁ hs hholds).mono fun r s₂ hr => ?_)
        cases r <;> exact hr
      · exact h₁.safe hs
      · exact h₁.safe hs
      · exact h₁.safe hs

/-- `reconcile` keeps the invariant wherever it is cut off. -/
theorem reconcile_safe (h : Safe R s) :
    Always R Confirmation.reconcile.run (fun _ s' => Safe R s') s := by
  rcases h with h | ⟨pending, disk, reverting, h, hs⟩
  · exact confirmed_spec h
  · exact reconcile_here_spec h hs

end Userspace

end RollbackSafety

end RecoveryEngine
